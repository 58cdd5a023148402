import XCalls.XCall.KoaLife

/-!
# The calls keep the KOAs of the actions

* `Instr.Calm`     the instruction changes neither KOAs nor descriptors;
* `xOpen_life`, ...   one lemma for each call that does;
* `FdRequest`, `fdRun`   any calls of one attempt, up to the first that aborts it;
* `fdRun_life`     the calls keep `LifeInv`, and one that aborts leaves what the undo actions need.
-/

set_option linter.unusedSectionVars false

namespace XCalls
open Prog
variable {T : Type} [DecidableEq T] {n N : Nat}

/-! ## calls that change no KOA -/

/-- the instruction changes neither KOAs nor descriptors, and registers no action that will -/
def Instr.Calm : ∀ {β : Type}, Instr n N β → Prop
  | _, .registerCommitAction a _ _ => a.fds = [] ∧ a.koas = []
  | _, .registerUndoAction a _ _ => a.fds = [] ∧ a.koas = []
  | _, .createKoa _ => False
  | _, .createKoaOf _ => False
  | _, .attachKoa _ => False
  | _, .detachKoa _ => False
  | _, .attachFd _ _ _ => False
  | _, .detachFd _ _ _ => False
  | _, .libcOpen _ _ => False
  | _, .libcDup _ => False
  | _, .libcSocket _ _ _ => False
  | _, .libcPipe => False
  | _, .libcClose _ => False
  | _, _ => True

section
variable {α : Type} {v v' : LifeView n N} {extra : List (Fin N)}

theorem lifeStep_calm {β : Type} {i : Instr n N β} {b : β} (hi : i.Calm)
    (h : lifeStep T i b v v') (hv : LifeInv v extra) : LifeInv v' extra := by
  cases i with
  | createKoa | createKoaOf | attachKoa | detachKoa | attachFd | detachFd | libcOpen | libcDup
  | libcSocket | libcPipe | libcClose => exact hi.elim
  | getXactstate | lookupInode | lookupFd2koa =>
    rw [h.2]
    exact hv
  | registerCommitAction a result order =>
    obtain rfl : v' = { v with commits := v.commits ++ [(a, order)] } := h
    refine hv.congr rfl rfl ?_ ⟨rfl, rfl⟩
    rw [fdsOf_snoc, koasOf_snoc, hi.1, hi.2, List.append_nil, List.append_nil]
    exact ⟨rfl, rfl⟩
  | registerUndoAction a result order =>
    obtain rfl : v' = { v with undos := v.undos ++ [(a, order)] } := h
    refine hv.congr rfl rfl ⟨rfl, rfl⟩ ?_
    rw [fdsOf_snoc, koasOf_snoc, hi.1, hi.2, List.append_nil, List.append_nil]
    exact ⟨rfl, rfl⟩
  | _ =>
    obtain rfl : v' = v := h
    exact hv

theorem wp_calm {p : XProg n N α} (hp : All (fun _ => Instr.Calm) p) (hv : LifeInv v []) :
    wp (lifeStep T) p LifePost v :=
  wp_mono (fun _ _ => lifePost_abort) (wp_all (J := fun v => LifeInv v [])
    (fun _ _ _ _ hi h hv => lifeStep_calm hi h hv) hp hv)

theorem calm_acquireFd {fd : Nat} {f : Bool → XProg n N α}
    (hf : ∀ b, All (fun _ => Instr.Calm) (f b)) :
    All (fun _ => Instr.Calm) (acquireFd fd >>= f) := by
  refine all_bind ?_ hf
  simp only [acquireFd, call_bind, pure_eq]
  repeat' first | exact trivial | refine all_op trivial fun _ => ?_ | split

theorem calm_beginSpeculative {koa : Fin N} {commit undo : XAction N} {result : Option Nat}
    (hc : commit.fds = [] ∧ commit.koas = []) (hu : undo.fds = [] ∧ undo.koas = []) :
    All (fun _ => Instr.Calm) (beginSpeculative koa commit undo result : XProg n N Bool) := by
  simp only [beginSpeculative, call_bind, pure_eq]
  repeat' first
    | exact trivial | refine all_op trivial fun _ => ?_ | refine all_op hc fun _ => ?_
    | refine all_op hu fun _ => ?_ | split

theorem calm_allocArgs {size : UInt32} {f : Unit → XProg n N α}
    (hf : All (fun _ => Instr.Calm) (f ())) :
    All (fun _ => Instr.Calm) (allocArgs size >>= f) := by
  refine all_bind ?_ fun _ => hf
  simp only [allocArgs, call_bind, pure_eq]
  repeat' first | exact trivial | refine all_op trivial fun _ => ?_ | split

theorem calm_xRead (fd nbyte : Nat) (result : Option Nat) :
    All (fun _ => Instr.Calm) (xRead fd nbyte result : XProg n N (Int × List UInt8)) := by
  simp only [xRead, finish, call_bind, op_bind, pure_eq, ret_bind]
  repeat' first
    | exact trivial | refine calm_acquireFd fun _ => ?_ | refine all_op trivial fun _ => ?_
    | refine all_op ⟨rfl, rfl⟩ fun _ => ?_ | split

theorem calm_xLseek (fd : Nat) (offset : Int) (whence : Whence) (result : Option Nat) :
    All (fun _ => Instr.Calm) (xLseek fd offset whence result : XProg n N Int) := by
  simp only [xLseek, finish, call_bind, pure_eq]
  repeat' first
    | exact trivial | refine calm_acquireFd fun _ => ?_ | refine all_op trivial fun _ => ?_
    | refine all_op ⟨rfl, rfl⟩ fun _ => ?_ | split

theorem calm_xWrite (fd : Nat) (buf : List UInt8) (result : Option Nat) (flags : WriteFlags) :
    All (fun _ => Instr.Calm) (xWrite fd buf result flags : XProg n N Int) := by
  have hovr : ∀ oldData, All (fun _ => Instr.Calm)
      (xWriteOvr fd buf result oldData : XProg n N Int) := by
    intro oldData
    simp only [xWriteOvr, finish, call_bind, pure_eq]
    repeat' first
      | exact trivial | refine all_op trivial fun _ => ?_ | refine all_op ⟨rfl, rfl⟩ fun _ => ?_
      | split
  simp only [xWrite, finish, call_bind, pure_eq]
  repeat' first
    | exact trivial | exact hovr _ | refine calm_acquireFd fun _ => ?_
    | refine all_op trivial fun _ => ?_ | refine all_op ⟨rfl, rfl⟩ fun _ => ?_ | split

theorem calm_xSync {sync : Instr n N (Except Errno Unit)} {commit : XAction N} (fildes : Nat)
    (result : Option Nat) (hs : sync.Calm) (hc : commit.fds = [] ∧ commit.koas = []) :
    All (fun _ => Instr.Calm) (xSync sync commit fildes result) := by
  simp only [xSync, finish, call_bind, pure_eq]
  repeat' first
    | exact trivial | refine calm_allocArgs ?_ | refine all_op trivial fun _ => ?_
    | refine all_op hs fun _ => ?_ | refine all_op hc fun _ => ?_ | split

theorem calm_xWritePipe (fd : Nat) (buf : List UInt8) (result : Option Nat) :
    All (fun _ => Instr.Calm) (xWritePipe fd buf result : XProg n N (Int × Errno)) := by
  simp only [xWritePipe, finish, call_bind, op_bind, pure_eq, ret_bind]
  repeat' first
    | exact trivial | refine calm_acquireFd fun _ => ?_ | refine all_op trivial fun _ => ?_
    | refine all_op ⟨rfl, rfl⟩ fun _ => ?_ | split

theorem calm_xSendmsg (fd : Nat) (msg : Msghdr) (flags : Int) (result : Option Nat) :
    All (fun _ => Instr.Calm) (xSendmsg fd msg flags result : XProg n N (Int × Errno)) := by
  simp only [xSendmsg, finish, call_bind, op_bind, pure_eq, ret_bind]
  repeat' first
    | exact trivial | refine calm_acquireFd fun _ => ?_ | refine all_op trivial fun _ => ?_
    | refine all_op ⟨rfl, rfl⟩ fun _ => ?_ | split

theorem calm_xReadPipe (fd nbyte : Nat) (result : Option Nat) :
    All (fun _ => Instr.Calm) (xReadPipe fd nbyte result : XProg n N (Int × List UInt8)) := by
  simp only [xReadPipe, readPipeRetryable, readPipeOutside, finish, call_bind, op_bind, pure_eq,
    ret_bind]
  repeat' first
    | exact trivial
    | refine all_bind (calm_beginSpeculative ⟨rfl, rfl⟩ ⟨rfl, rfl⟩) fun _ => ?_
    | refine all_op trivial fun _ => ?_ | split

theorem calm_xRecvmsg (fd : Nat) (lens : List Nat) (flags : Int) (result : Option Nat) :
    All (fun _ => Instr.Calm) (xRecvmsg fd lens flags result : XProg n N RecvReply) := by
  simp only [xRecvmsg, recvmsgRetryable, recvmsgOutside, finish, call_bind, op_bind, pure_eq,
    ret_bind]
  repeat' first
    | exact trivial
    | refine all_bind (calm_beginSpeculative ⟨rfl, rfl⟩ ⟨rfl, rfl⟩) fun _ => ?_
    | refine all_op trivial fun _ => ?_ | split

/-! ## parts of the other calls -/

theorem LifeInv.newFd {fd : Nat} {k : Fin N} (hv : LifeInv v []) (hk : k ∉ v.koas.free)
    (hfd : FreshFd v fd) (hopen : v.fds fd ≠ none)
    (hc : v.manage T (fun m m' => koaAttachFd m k fd = some m') v') :
    LifeInv v' [] ∧ NewFd v' fd k := by
  obtain ⟨hv', hmap, koas, rfl, -⟩ := hv.attachFd hk hfd hc
  exact ⟨hv', hfd, hmap, hopen⟩

/-- at a stop, `Q` asks for nothing more than `LifePost` -/
def AtStops (Q : Except Stop α → LifeView n N → Prop) : Prop :=
  ∀ e v, StopPost e v → Q (.error e) v

theorem atStops_lifePost : AtStops (LifePost : Except Stop α → LifeView n N → Prop) :=
  fun _ _ h => h

variable {Q : Except Stop α → LifeView n N → Prop}

theorem wp_acquireNew_life {koa : Fin N} {f : Unit → XProg n N α} (hQ : AtStops Q)
    (h : wp (lifeStep T) (f ()) Q v) : wp (lifeStep T) (acquireNew koa >>= f) Q v := by
  apply wp_bind
  simp only [acquireNew, call_bind]
  rintro s v rfl xret v rfl
  dsimp only
  split
  · exact hQ .internalError _ trivial
  · exact h

theorem wp_allocArgs_life {size : UInt32} {f : Unit → XProg n N α}
    (h : wp (lifeStep T) (f ()) LifePost v) :
    wp (lifeStep T) (allocArgs size >>= f) LifePost v := by
  apply wp_bind
  simp only [allocArgs, call_bind]
  rintro ok v rfl
  cases ok with
  | false => trivial
  | true => exact h

theorem wp_registerFd {fd : Nat} {k : Fin N} {a : XAction N} {result : Option Nat} {order : Int32}
    {p : XProg n N α} (hv : LifeInv v [] ∧ NewFd v fd k) (ha : a.fds = [(fd, k)]) (hk : a.koas = [])
    (hp : All (fun _ => Instr.Calm) p) :
    wp (lifeStep T) (call (.registerUndoAction a result order) >>= fun _ => p) LifePost v := by
  rintro _ _ rfl
  refine wp_calm hp (hv.1.registerUndo (fun x hx => ?_) (by rw [ha]; simp) hk)
  rw [ha, List.mem_singleton] at hx
  subst hx
  exact hv.2

theorem wp_openRegister_life {fd : Nat} {k : Fin N} {result : Option Nat} {p : XProg n N α}
    (hv : LifeInv v [] ∧ NewFd v fd k) (hp : All (fun _ => Instr.Calm) p) :
    wp (lifeStep T) (xOpenRegister fd k result >>= fun _ => p) LifePost v := by
  apply wp_bind
  simp only [xOpenRegister, allocArgs, call_bind, op_bind]
  rintro ok v rfl
  cases ok with
  | false => trivial
  | true => exact wp_registerFd hv rfl rfl hp

/-- the KOA of a path gets a reference -/
theorem wp_attachPath {inode : Inode} {flags : UInt32} {f : Fin N → XProg n N α}
    (hQ : AtStops Q) (hv : LifeInv v extra)
    (hf : ∀ koa koas, LifeInv { v with koas := koas } (koa :: extra) →
      wp (lifeStep T) (f koa) Q { v with koas := koas }) :
    wp (lifeStep T) (attachPath inode flags >>= f) Q v := by
  apply wp_bind
  simp only [attachPath, call_bind]
  rintro koa v ⟨hkoa, rfl⟩
  cases koa with
  | some koa =>
    have hlive := (hv.held.cached _ koa hkoa.symm).1
    rintro _ v rfl _ v₁ h₁
    obtain ⟨hv₁, -, koas, rfl⟩ := hv.attach hlive h₁
    rintro s _ rfl xret _ rfl
    dsimp only
    split
    · -- busy: the reference is dropped
      rintro _ v₂ h₂ _ v₃ rfl _ v₄ rfl
      exact hQ (.abort .busysentinel) _ (hv₁.detach h₂).undo
    · rintro _ _ rfl
      exact hf koa koas hv₁
  | none =>
    rintro koa v₁ h₁ _ v₂ h₂
    obtain ⟨hv₁, hlive, koas₁, rfl, -⟩ := hv.create h₁
    obtain ⟨hv₂, -, koas₂, rfl⟩ := hv₁.attach hlive h₂
    exact wp_acquireNew_life (fun e v he => hQ e v he) (hf koa koas₂ hv₂)

/-! ## x_open, x_create, x_close, x_dup -/

theorem xOpen_life (pathname : Path) (flags : OpenFlags) (result : Option Nat) (hv : LifeInv v [])
    (hx : v.xactstate = .retryable) (hfd : v.fds v.fd = none) :
    wp (lifeStep T) (xOpen pathname flags result : XProg n N Int) LifePost v := by
  simp only [xOpen, call_bind]
  rintro _ v ⟨rfl, rfl⟩
  rw [hx]
  rintro _ v rfl inode v rfl
  dsimp only
  split
  · exact wp_calm ⟨trivial, fun _ => ⟨trivial, fun _ => trivial⟩⟩ hv
  · rintro fildes v₁ h₁
    cases fildes with
    | error e =>
      obtain rfl : v₁ = v := h₁
      exact wp_calm ⟨trivial, fun _ => ⟨trivial, fun _ => trivial⟩⟩ hv
    | ok fildes =>
      obtain ⟨rfl, d, rfl⟩ := h₁
      have hfresh := hv.fresh hfd
      have hv₁ := hv.open v.fd d
      have hopen : Function.update v.fds v.fd (some d) v.fd ≠ none := by simp
      rintro koa _ ⟨hkoa, rfl⟩
      cases koa with
      | some koa =>
        have hlive := (hv₁.held.cached _ koa hkoa.symm).1
        rintro _ _ rfl _ _ rfl _ v₂ h₂
        obtain ⟨hv₂, hmap, koas, rfl, -⟩ := hv₁.attachFd hlive hfresh h₂
        rintro s _ rfl xret _ rfl
        dsimp only
        split
        · -- busy: the descriptor is closed and detached again
          rintro _ _ ⟨fds, hfds, rfl⟩ _ v₃ h₃ _ _ rfl _ _ rfl _ _ rfl
          exact (hv₂.close hfresh hfds).detachFd hmap hfresh h₃
        · exact wp_openRegister_life ⟨hv₂, hfresh, hmap, hopen⟩
            ⟨trivial, fun _ => ⟨trivial, fun _ => ⟨trivial, fun _ => trivial⟩⟩⟩
      | none =>
        rintro koa v₂ h₂ _ _ rfl _ v₃ h₃
        obtain ⟨hv₂, hlive, koas, rfl, -⟩ := hv₁.create h₂
        refine wp_acquireNew_life atStops_lifePost ?_
        exact wp_openRegister_life (hv₂.newFd hlive hfresh hopen h₃)
          ⟨trivial, fun _ => ⟨trivial, fun _ => ⟨trivial, fun _ => trivial⟩⟩⟩

theorem xCreateCase1_life (pathname : Path) (result : Option Nat) (hv : LifeInv v [])
    (hfd : v.fds v.fd = none) :
    wp (lifeStep T) (xCreateCase1 pathname result : XProg n N Int) LifePost v := by
  simp only [xCreateCase1, call_bind]
  rintro fildes v₁ h₁
  cases fildes with
  | error e =>
    obtain rfl : v₁ = v := h₁
    exact wp_calm ⟨trivial, fun _ => ⟨trivial, fun _ => trivial⟩⟩ hv
  | ok fildes =>
    obtain ⟨rfl, d, rfl⟩ := h₁
    have hopen : Function.update v.fds v.fd (some d) v.fd ≠ none := by simp
    rintro inode _ rfl koa v₂ h₂ _ _ rfl _ v₃ h₃
    obtain ⟨hv₂, hlive, koas, rfl, -⟩ := (hv.open v.fd d).create h₂
    have hnew := hv₂.newFd hlive (hv.fresh hfd) hopen h₃
    refine wp_acquireNew_life atStops_lifePost (wp_allocArgs_life ?_)
    exact wp_registerFd hnew rfl rfl ⟨trivial, fun _ => ⟨trivial, fun _ => ⟨trivial, fun _ => trivial⟩⟩⟩

theorem xCreateCase2_life (pathname : Path) (inode : Inode) (result : Option Nat)
    (hv : LifeInv v []) (hfd : v.fds v.fd = none) :
    wp (lifeStep T) (xCreateCase2 pathname inode result : XProg n N Int) LifePost v := by
  simp only [xCreateCase2, call_bind]
  apply wp_bind
  -- the existing file is only isolated
  have hiso : All (fun _ => Instr.Calm) (xCreateIsolate inode : XProg n N Unit) := by
    simp only [xCreateIsolate, xCreateCase2a, call_bind, pure_eq]
    repeat' first | exact trivial | refine all_op trivial fun _ => ?_ | split
  have hkeep : ∀ {β : Type} (i : Instr n N β) (b : β) (u u' : LifeView n N), i.Calm →
      lifeStep T i b u u' → (LifeInv u [] ∧ u.fds u.fd = none) → LifeInv u' [] ∧ u'.fds u'.fd = none := by
    intro β i b u u' hi h hu
    refine ⟨lifeStep_calm hi h hu.1, ?_⟩
    cases i with
    | createKoa | createKoaOf | attachKoa | detachKoa | attachFd | detachFd | libcOpen | libcDup
    | libcSocket | libcPipe | libcClose => exact hi.elim
    | getXactstate | lookupInode | lookupFd2koa =>
      rw [h.2]
      exact hu.2
    | registerCommitAction | registerUndoAction =>
      cases h
      exact hu.2
    | _ =>
      obtain rfl : u' = u := h
      exact hu.2
  refine wp_mono (fun r u hu => ?_) (wp_all hkeep hiso ⟨hv, hfd⟩)
  obtain ⟨hu, hfd⟩ := hu
  cases r with
  | error e => exact lifePost_abort hu
  | ok _ =>
    rintro temp u rfl _ u rfl fildes v₁ h₁
    cases fildes with
    | error e =>
      obtain rfl := h₁
      exact wp_calm ⟨trivial, fun _ => ⟨trivial, fun _ => ⟨trivial, fun _ => trivial⟩⟩⟩ hu
    | ok fildes =>
      obtain ⟨rfl, d, rfl⟩ := h₁
      have hopen : Function.update u.fds u.fd (some d) u.fd ≠ none := by simp
      rintro inode _ rfl koa v₂ h₂ _ _ rfl _ v₃ h₃
      obtain ⟨hv₂, hlive, koas, rfl, -⟩ := (hu.open u.fd d).create h₂
      have hnew := hv₂.newFd hlive (hu.fresh hfd) hopen h₃
      refine wp_acquireNew_life atStops_lifePost (wp_allocArgs_life ?_)
      rintro _ _ rfl
      refine wp_registerFd ⟨?_, hnew.2.fresh, hnew.2.map, hnew.2.isOpen⟩ rfl rfl
        ⟨trivial, fun _ => ⟨trivial, fun _ => ⟨trivial, fun _ => trivial⟩⟩⟩
      exact hnew.1.registerCommit rfl fun _ => Nat.zero_le _

theorem xCreate_life (pathname : Path) (result : Option Nat) (hv : LifeInv v [])
    (hx : v.xactstate = .retryable) (hfd : v.fds v.fd = none) :
    wp (lifeStep T) (xCreate pathname result : XProg n N Int) LifePost v := by
  simp only [xCreate, call_bind]
  rintro _ v ⟨rfl, rfl⟩
  rw [hx]
  rintro _ v rfl inode v rfl
  dsimp only
  split
  · exact xCreateCase1_life pathname result hv hfd
  · exact xCreateCase2_life pathname inode result hv hfd

theorem xClose_life (fildes : Nat) (result : Option Nat) (hv : LifeInv v [])
    (hx : v.xactstate = .retryable) :
    wp (lifeStep T) (xClose fildes result : XProg n N Int) LifePost v := by
  simp only [xClose, call_bind]
  rintro _ v ⟨rfl, rfl⟩
  rw [hx]
  rintro _ v rfl koa v ⟨hkoa, rfl⟩
  cases koa with
  | none => exact wp_calm ⟨trivial, fun _ => ⟨trivial, fun _ => trivial⟩⟩ hv
  | some koa =>
    rintro s _ rfl xret _ rfl _ _ rfl
    dsimp only
    split
    · exact hv.undo
    · refine wp_allocArgs_life ?_
      rintro _ _ rfl
      exact wp_calm ⟨trivial, fun _ => ⟨trivial, fun _ => trivial⟩⟩ (hv.registerClose hkoa.symm)

theorem xDup_life (oldfd : Nat) (result : Option Nat) (hv : LifeInv v [])
    (hx : v.xactstate = .retryable) (hfd : v.fds v.fd = none) :
    wp (lifeStep T) (xDup oldfd result : XProg n N Int) LifePost v := by
  simp only [xDup, call_bind]
  rintro _ v ⟨rfl, rfl⟩
  rw [hx]
  rintro _ v rfl koa v ⟨hkoa, rfl⟩
  cases koa with
  | none => exact wp_calm ⟨trivial, fun _ => trivial⟩ hv
  | some koa =>
    have hlive := hv.held.attached oldfd koa (Or.inl hkoa.symm)
    rintro _ v rfl _ v rfl koa2 v ⟨-, rfl⟩
    dsimp only
    split
    · exact wp_calm ⟨trivial, fun _ => trivial⟩ hv
    · rintro s v rfl xret v rfl
      dsimp only
      split
      · rintro _ _ rfl
        exact hv.undo
      · rintro fildes v₁ h₁
        cases fildes with
        | error e =>
          obtain rfl := h₁
          exact wp_calm ⟨trivial, fun _ => ⟨trivial, fun _ => trivial⟩⟩ hv
        | ok fildes =>
          obtain ⟨rfl, d, rfl⟩ := h₁
          have hfresh := hv.fresh hfd
          have hv₁ := hv.open v.fd d
          rintro ok _ rfl
          cases ok with
          | false =>
            rintro _ _ ⟨fds, hfds, rfl⟩
            exact wp_calm ⟨trivial, fun _ => ⟨trivial, fun _ => trivial⟩⟩ (hv₁.close hfresh hfds)
          | true =>
            rintro _ v₂ h₂ _ _ rfl
            have hopen : Function.update v.fds v.fd (some d) v.fd ≠ none := by simp
            exact wp_registerFd (hv₁.newFd hlive hfresh hopen h₂) rfl rfl ⟨trivial, fun _ => trivial⟩

/-! ## x_rename, x_unlink -/

theorem xUnlink_life (pathname : Path) (result : Option Nat) (hv : LifeInv v [])
    (hx : v.xactstate = .retryable) :
    wp (lifeStep T) (xUnlink pathname result : XProg n N Int) LifePost v := by
  simp only [xUnlink, call_bind]
  rintro _ v ⟨rfl, rfl⟩
  rw [hx]
  rintro _ v rfl inode v rfl
  dsimp only
  split
  · exact wp_calm ⟨trivial, fun _ => ⟨trivial, fun _ => trivial⟩⟩ hv
  · refine wp_attachPath atStops_lifePost hv fun koa koas hv₁ => wp_allocArgs_life ?_
    rintro _ _ rfl
    refine wp_calm ⟨trivial, fun _ => ⟨trivial, fun _ => trivial⟩⟩ ?_
    exact hv₁.registerCommit rfl fun _ => le_rfl

theorem wp_renameRegister {args : RenameArgs N} {result : Option Nat} {p : XProg n N α}
    (hv : LifeInv v extra)
    (hargs : ∀ k, (args.oldpathKoa :: (args.newpathKoa.map Prod.fst).toList).count k
      ≤ extra.count k) (hp : All (fun _ => Instr.Calm) p) :
    wp (lifeStep T) (do
      allocArgs renameArgsSize
      call (.registerCommitAction (.renameCommit args) result regularActionOrder)
      call (.registerUndoAction (.renameUndo args) result regularActionOrder)
      p) LifePost v := by
  refine wp_allocArgs_life ?_
  rintro _ _ rfl _ _ rfl
  exact wp_calm hp (hv.registerBoth rfl hargs rfl rfl)

theorem xRename_life (oldpath newpath : Path) (result : Option Nat) (hv : LifeInv v [])
    (hx : v.xactstate = .retryable) :
    wp (lifeStep T) (xRename oldpath newpath result : XProg n N Int) LifePost v := by
  simp only [xRename, call_bind]
  rintro _ v ⟨rfl, rfl⟩
  rw [hx]
  rintro _ v rfl oldInode v rfl
  dsimp only
  split
  · exact wp_calm ⟨trivial, fun _ => ⟨trivial, fun _ => trivial⟩⟩ hv
  · refine wp_attachPath atStops_lifePost hv fun oldKoa koas hv₁ => ?_
    rintro newInode _ rfl
    apply wp_bind
    unfold xRenameAside
    split
    · rintro _ _ rfl
      exact wp_renameRegister hv₁ (fun _ => le_rfl) ⟨trivial, fun _ => ⟨trivial, fun _ => trivial⟩⟩
    · refine wp_attachPath (fun e v he => he) hv₁ fun newKoa koas₂ hv₂ => ?_
      rintro temp _ rfl _ _ rfl _ _ rfl
      refine wp_renameRegister hv₂ (fun k => ?_) ⟨trivial, fun _ => ⟨trivial, fun _ => trivial⟩⟩
      exact ((List.Perm.swap oldKoa newKoa []).count_eq k).ge

/-! ## x_socket, x_pipe -/

theorem xSocket_life (domain : Int) (type : SockType) (protocol : Int) (result : Option Nat)
    (hv : LifeInv v []) (hx : v.xactstate = .retryable) (hfd : v.fds v.fd = none) :
    wp (lifeStep T) (xSocket domain type protocol result : XProg n N Int) LifePost v := by
  cases type with
  | stream => exact wp_calm ⟨trivial, fun _ => trivial⟩ hv
  | dgram =>
    simp only [xSocket, call_bind]
    rintro _ v ⟨rfl, rfl⟩
    rw [hx]
    rintro fildes v₁ h₁
    cases fildes with
    | error e =>
      obtain rfl : v₁ = v := h₁
      exact wp_calm ⟨trivial, fun _ => trivial⟩ hv
    | ok fildes =>
      obtain ⟨rfl, d, rfl⟩ := h₁
      have hopen : Function.update v.fds v.fd (some d) v.fd ≠ none := by simp
      rintro koa v₂ h₂ _ _ rfl _ v₃ h₃
      obtain ⟨hv₂, hlive, koas, rfl, -⟩ := (hv.open v.fd d).create h₂
      have hnew := hv₂.newFd hlive (hv.fresh hfd) hopen h₃
      refine wp_acquireNew_life atStops_lifePost (wp_allocArgs_life ?_)
      exact wp_registerFd hnew rfl rfl ⟨trivial, fun _ => ⟨trivial, fun _ => trivial⟩⟩

theorem wp_lockBoth_life {fd0 fd1 : Nat} {f : Unit → XProg n N α}
    (h : wp (lifeStep T) (f ()) Q v) : wp (lifeStep T) (lockBoth fd0 fd1 >>= f) Q v := by
  apply wp_bind
  unfold lockBoth
  split
  · rintro _ _ rfl _ _ rfl
    exact h
  · rintro _ _ rfl _ _ rfl
    exact h

theorem xPipe_life (result : Option Nat) (hv : LifeInv v []) (hx : v.xactstate = .retryable)
    (hfd : v.fds v.fd = none) (hfd1 : v.fds v.fd1 = none) (hne : v.fd ≠ v.fd1) :
    wp (lifeStep T) (xPipe result : XProg n N (Int × Option (Nat × Nat))) LifePost v := by
  simp only [xPipe, call_bind]
  rintro _ v ⟨rfl, rfl⟩
  rw [hx]
  rintro fildes v₁ h₁
  cases fildes with
  | error e =>
    obtain rfl : v₁ = v := h₁
    exact wp_calm ⟨trivial, fun _ => trivial⟩ hv
  | ok fildes =>
    obtain ⟨fd0, fd1⟩ := fildes
    obtain ⟨rfl, rfl, d, d', rfl⟩ := h₁
    have hopen : ∀ fd, fd = v.fd ∨ fd = v.fd1 →
        Function.update (Function.update v.fds v.fd (some d)) v.fd1 (some d') fd ≠ none := by
      rintro fd (rfl | rfl)
      · rw [Function.update_of_ne hne, Function.update_self]
        exact Option.some_ne_none d
      · rw [Function.update_self]
        exact Option.some_ne_none d'
    have hfresh := hv.fresh hfd
    have hfresh1 := hv.fresh hfd1
    apply wp_bind
    simp only [pipeKoas, call_bind]
    rintro koa0 v₂ h₂ koa1 v₃ h₃
    obtain ⟨hv₂, hlive0, koas, rfl, -⟩ := ((hv.open v.fd d).open v.fd1 d').create h₂
    obtain ⟨hv₃, hlive1, koas, rfl, hkeep⟩ := hv₂.create h₃
    refine wp_lockBoth_life ?_
    rintro _ v₄ h₄ _ v₅ h₅
    obtain ⟨hv₄, hmap0, koas, rfl, hfree, -⟩ := hv₃.attachFd (hkeep koa0 hlive0) hfresh h₄
    obtain ⟨hv₅, hmap1, koas, rfl, -, hmaps⟩ := hv₄.attachFd (by rw [hfree]; exact hlive1) hfresh1 h₅
    refine wp_acquireNew_life atStops_lifePost (wp_acquireNew_life atStops_lifePost
      (wp_allocArgs_life ?_))
    rintro _ _ rfl
    refine wp_calm ⟨trivial, fun _ => ⟨trivial, fun _ => ⟨trivial, fun _ => trivial⟩⟩⟩
      (hv₅.registerUndo (fun x hx => ?_) (by simpa [XAction.fds] using hne) rfl)
    rcases List.mem_cons.mp hx with rfl | hx
    · exact ⟨hfresh, (hmaps _ hne).trans hmap0, hopen _ (Or.inl rfl)⟩
    · obtain rfl := List.mem_singleton.mp hx
      exact ⟨hfresh1, hmap1, hopen _ (Or.inr rfl)⟩

theorem wp_value {β : Type} {p : XProg n N β} (h : wp (lifeStep T) p LifePost v) :
    wp (lifeStep T) (do let _ ← p : XProg n N Unit) LifePost v := by
  refine wp_bind (wp_mono ?_ h)
  intro r v hr
  cases r with
  | ok b => exact hr
  | error e => exact hr

structure ClosedFds (v : LifeView n N) : Prop where
  fd : v.fds v.fd = none
  fd1 : v.fds v.fd1 = none
  ne : v.fd ≠ v.fd1

/-- **A call** keeps what the actions need. -/
theorem fdCall_life (c : FdCall) (result : Option Nat) (hv : LifeInv v [])
    (hx : v.xactstate = .retryable) (hfd : ClosedFds v) :
    wp (lifeStep T) (c.prog result : XProg n N Unit) LifePost v := by
  cases c with
  | file c =>
    refine wp_value ?_
    cases c with
    | read fd nbyte => exact wp_calm (all_bind (calm_xRead fd nbyte result) fun _ => trivial) hv
    | lseek fd offset whence => exact wp_calm (calm_xLseek fd offset whence result) hv
    | write fd buf flags => exact wp_calm (calm_xWrite fd buf result flags) hv
    | «open» pathname flags => exact xOpen_life pathname flags result hv hx hfd.fd
    | create pathname => exact xCreate_life pathname result hv hx hfd.fd
    | close fildes => exact xClose_life fildes result hv hx
    | dup oldfd => exact xDup_life oldfd result hv hx hfd.fd
    | rename oldpath newpath => exact xRename_life oldpath newpath result hv hx
    | unlink pathname => exact xUnlink_life pathname result hv hx
  | fsync fildes => exact wp_value (wp_calm (calm_xSync fildes result trivial ⟨rfl, rfl⟩) hv)
  | fdatasync fildes => exact wp_value (wp_calm (calm_xSync fildes result trivial ⟨rfl, rfl⟩) hv)
  | readPipe fd nbyte => exact wp_value (wp_calm (calm_xReadPipe fd nbyte result) hv)
  | writePipe fd buf => exact wp_value (wp_calm (calm_xWritePipe fd buf result) hv)
  | sendmsg fd msg flags => exact wp_value (wp_calm (calm_xSendmsg fd msg flags result) hv)
  | recvmsg fd lens flags => exact wp_value (wp_calm (calm_xRecvmsg fd lens flags result) hv)
  | pipe => exact wp_value (xPipe_life result hv hx hfd.fd hfd.fd1 hfd.ne)
  | socket domain type protocol => exact wp_value (xSocket_life domain type protocol result hv hx hfd.fd)

end

/-! ## the calls of an attempt -/

/-- a call, its pointer `result`, and the environment's part in it -/
structure FdRequest where
  call : FdCall
  result : Option Nat
  answers : Answers

/-- the calls one after the other, with the reason when one of them aborts the attempt -/
def fdRun : List FdRequest → XMach T n N → Option (Option AbortReason × XMach T n N)
  | [], m => some (none, m)
  | c :: cs, m =>
    match run handle (c.call.prog c.result) (withAnswers m c.answers) with
    | none => none
    | some (.ok _, m') => fdRun cs m'
    | some (.error (.abort reason), m') => some (some reason, m')
    | some (.error .internalError, _) => none

instance (v : LifeView n N) : Decidable (ClosedFds v) :=
  decidable_of_iff (v.fds v.fd = none ∧ v.fds v.fd1 = none ∧ v.fd ≠ v.fd1)
    ⟨fun h => ⟨h.1, h.2.1, h.2.2⟩, fun h => ⟨h.fd, h.fd1, h.ne⟩⟩

/-- the kernel picks descriptors that are closed, all along the run -/
def FdsAdmissible : List FdRequest → XMach T n N → Prop
  | [], _ => True
  | c :: cs, m =>
    ClosedFds (lifeView (withAnswers m c.answers)) ∧
      match run handle (c.call.prog c.result) (withAnswers m c.answers) with
      | some (.ok _, m') => FdsAdmissible cs m'
      | _ => True

def decFdsAdmissible : ∀ (cs : List FdRequest) (m : XMach T n N), Decidable (FdsAdmissible cs m)
  | [], _ => isTrue trivial
  | c :: cs, m =>
    have : Decidable (match run handle (c.call.prog c.result : XProg n N Unit)
        (withAnswers m c.answers) with
      | some (.ok _, m') => FdsAdmissible cs m'
      | _ => True) :=
      match run handle (c.call.prog c.result : XProg n N Unit) (withAnswers m c.answers) with
      | some (.ok _, m') => decFdsAdmissible cs m'
      | some (.error _, _) => isTrue trivial
      | none => isTrue trivial
    inferInstanceAs (Decidable (_ ∧ _))

instance (cs : List FdRequest) (m : XMach T n N) : Decidable (FdsAdmissible cs m) :=
  decFdsAdmissible cs m

theorem run_life {α : Type} {p : XProg n N α} {Q : Except Stop α → LifeView n N → Prop}
    {r : Except Stop α} {m m' : XMach T n N} (hwp : wp (lifeStep T) p Q (lifeView m))
    (h : run handle p m = some (r, m')) : Q r (lifeView m') := by
  have hR : ∀ {β : Type} (i : Instr n N β) (b : β) (s s' : XMach T n N), True →
      handle i s = some (b, s') → lifeStep T i b (lifeView s) (lifeView s') ∧ True :=
    fun i b s s' _ hs => ⟨handle_lifeStep hs, trivial⟩
  exact (wp_run hR trivial hwp h).1

theorem handle_xactstate {β : Type} (i : Instr n N β) (b : β) (m m' : XMach T n N)
    (h : handle i m = some (b, m')) (hm : m.world.xactstate = .retryable) :
    m'.world.xactstate = .retryable := by
  cases i with
  | attachKoa k =>
    cases h
    exact hm
  | detachKoa k =>
    cases h
    rw [World.meet_eq]
    exact hm
  | createKoa | createKoaOf =>
    simp only [handle, Option.map_eq_some_iff] at h
    obtain ⟨⟨k, mgr⟩, -, h2⟩ := h
    cases h2
    exact hm
  | attachFd k fd lock =>
    simp only [handle, Option.map_eq_some_iff] at h
    obtain ⟨mgr, -, h2⟩ := h
    cases h2
    exact hm
  | detachFd k fd lock =>
    cases h
    rw [World.meet_eq]
    split <;> exact hm
  | _ => exact (handle_koas h id).2.trans hm

/-- **The calls of an attempt** keep what the actions need, and an abort leaves what the undo actions
need. -/
theorem fdRun_life {cs : List FdRequest} : ∀ {m m' : XMach T n N} {out : Option AbortReason},
    LifeInv (lifeView m) [] → m.world.xactstate = .retryable → FdsAdmissible cs m →
    fdRun cs m = some (out, m') →
    UndoLife (lifeView m') ∧ (out = none → LifeInv (lifeView m') []) := by
  induction cs with
  | nil =>
    intro m m' out hv hx hadm hrun
    cases hrun
    exact ⟨hv.undo, fun _ => hv⟩
  | cons c cs ih =>
    intro m m' out hv hx hadm hrun
    obtain ⟨hfds, hadm⟩ := hadm
    have hpost : ∀ {r : Except Stop Unit} {m₁ : XMach T n N},
        run handle (c.call.prog c.result) (withAnswers m c.answers) = some (r, m₁) →
        LifePost r (lifeView m₁) ∧ m₁.world.xactstate = .retryable := by
      intro r m₁ h₁
      have hv₀ : LifeInv (lifeView (withAnswers m c.answers)) [] :=
        hv.congr rfl rfl ⟨rfl, rfl⟩ ⟨rfl, rfl⟩
      refine ⟨run_life (fdCall_life c.call c.result hv₀ hx hfds) h₁, ?_⟩
      exact run_inv (J := fun s : XMach T n N => s.world.xactstate = .retryable)
        (fun i b s s' hs => handle_xactstate i b s s' hs) h₁ hx
    unfold fdRun at hrun
    split at hrun
    · cases hrun
    · rename_i r m₁ h₁
      obtain ⟨hv₁, hx₁⟩ := hpost h₁
      rw [h₁] at hadm
      exact ih hv₁ hx₁ hadm hrun
    · rename_i reason m₁ h₁
      cases hrun
      exact ⟨(hpost h₁).1, fun h => nomatch h⟩
    · cases hrun

end XCalls
