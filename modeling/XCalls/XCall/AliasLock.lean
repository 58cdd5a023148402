import XCalls.XCall.Run

/-!
# The lock of the alias cache

* `AliasLock`, `aliasLock`   a monitor of the lock: whether it is held, how often it was taken and
                   given back, and whether a step needed it otherwise;
* `Balanced`       the discipline at the end of a call or of an action;
* `alias_lock_balanced`   every call that opens, creates, renames, unlinks or closes keeps it, and
                   so do its actions, whatever the environment responds, but for an `x_create`
                   outside a retryable transaction whose `open` fails.
-/

set_option linter.unusedSectionVars false

namespace XCalls
open Prog
variable {n N : Nat}

/-! ## the monitor -/

/-- `misused`: the lock was taken while it was held, given back while it was not, or not held when
the cache was read or might be changed.  `state` and `openFailed` are what the environment has
responded. -/
structure AliasLock where
  held : Bool
  taken : Nat
  given : Nat
  misused : Bool
  state : Option XactState
  openFailed : Bool
  deriving DecidableEq, Repr

/-- at the start of a call or an action -/
def AliasLock.free : AliasLock := ⟨false, 0, 0, false, none, false⟩

def AliasLock.use (l : AliasLock) : AliasLock := { l with misused := l.misused || !l.held }

def aliasLock : Monitor (Instr n N) AliasLock
  | _, .getXactstate, b, l => { l with state := some b }
  | _, .lockAliasCache, _, l =>
    { l with held := true, taken := l.taken + 1, misused := l.misused || l.held }
  | _, .unlockAliasCache, _, l =>
    { l with held := false, given := l.given + 1, misused := l.misused || !l.held }
  | _, .lookupInode _, _, l => l.use
  | _, .attachKoa _, _, l => l.use
  | _, .detachKoa _, _, l => l.use
  | _, .attachFd _ _ _, _, l => l.use
  | _, .detachFd _ _ _, _, l => l.use
  | _, .libcOpen _ _, b, l => { l with openFailed := l.openFailed || !b.isOk }
  | _, _, _, l => l

/-- the lock was taken at most once, given back as often and only while held, held whenever it had
to be, and is not held any more -/
structure AliasLock.Balanced (l : AliasLock) : Prop where
  once : l.taken ≤ 1
  given : l.given = l.taken
  proper : l.misused = false
  free : l.held = false

/-! ## the calls -/

/-- the calls that use the alias cache -/
def XCall.OnAliases : XCall → Prop
  | .open _ _ => True
  | .create _ => True
  | .close _ => True
  | .rename _ _ => True
  | .unlink _ => True
  | _ => False

/-- `x_create` outside a retryable transaction, and its `open` has failed -/
def XCall.createFailed (c : XCall) (l : AliasLock) : Prop :=
  match c with
  | .create _ => l.state ≠ some .retryable ∧ l.openFailed = true
  | _ => False

def LockPost (c : XCall) : Except Stop Int → AliasLock → Prop
  | .error .internalError, _ => True
  | _, l => l.Balanced ↔ ¬ c.createFailed l

section
variable {α : Type} {Q : Except Stop α → AliasLock → Prop} {l : AliasLock}

theorem wp_finish_lock {Q : Except Stop Int → AliasLock → Prop} {result : Option Nat} {ret : Int}
    {e : Errno} (h : Q (.ok ret) l) : wp (noted aliasLock) (finish result ret e : XProg n N Int) Q l := by
  simp only [finish, call_bind, wp_noted_op]
  intro _
  exact h

theorem wp_acquireNew_lock {koa : Fin N} {f : Unit → XProg n N α} (he : Q (.error .internalError) l)
    (h : wp (noted aliasLock) (f ()) Q l) :
    wp (noted aliasLock) (acquireNew koa >>= f) Q l := by
  apply wp_bind
  simp only [acquireNew, call_bind, wp_noted_op]
  intro _ xret
  split
  · exact he
  · exact h

theorem wp_allocArgs_lock {size : UInt32} {f : Unit → XProg n N α}
    (he : Q (.error .internalError) l) (h : wp (noted aliasLock) (f ()) Q l) :
    wp (noted aliasLock) (allocArgs size >>= f) Q l := by
  apply wp_bind
  simp only [allocArgs, call_bind, wp_noted_op]
  intro ok
  cases ok with
  | false => exact he
  | true => exact h

theorem wp_openRegister_lock {fildes : Nat} {koa : Fin N} {result : Option Nat}
    {f : Unit → XProg n N α} (he : Q (.error .internalError) l)
    (h : wp (noted aliasLock) (f ()) Q l) :
    wp (noted aliasLock) (xOpenRegister fildes koa result >>= f) Q l := by
  apply wp_bind
  apply wp_allocArgs_lock
  · exact he
  · rw [call, wp_noted_op]
    intro _
    exact h

end

/-- the lock is held, in a call made in the state `x` -/
def AliasLock.inside (x : XactState) : AliasLock := ⟨true, 1, 0, false, some x, false⟩

def AliasLock.after (x : XactState) (openFailed : Bool) : AliasLock :=
  ⟨false, 1, 1, false, some x, openFailed⟩

theorem AliasLock.balanced_after (x : XactState) (b : Bool) : (after x b).Balanced :=
  ⟨le_rfl, rfl, rfl, rfl⟩

theorem AliasLock.balanced_unused (x : XactState) : (⟨false, 0, 0, false, some x, false⟩ :
    AliasLock).Balanced := ⟨Nat.zero_le _, rfl, rfl, rfl⟩

theorem lockPost_of_balanced {c : XCall} {r : Except Stop Int} {l : AliasLock} (hl : l.Balanced)
    (h : ¬ c.createFailed l) : LockPost c r l := by
  cases r with
  | ok v => exact ⟨fun _ => h, fun _ => hl⟩
  | error e =>
    cases e with
    | internalError => trivial
    | abort reason => exact ⟨fun _ => h, fun _ => hl⟩

theorem lockPost_after {c : XCall} {r : Except Stop Int} {x : XactState} {b : Bool}
    (h : ¬ c.createFailed (.after x b)) : LockPost c r (.after x b) :=
  lockPost_of_balanced (AliasLock.balanced_after x b) h

theorem lockPost_retryable {c : XCall} {r : Except Stop Int} {b : Bool} :
    LockPost c r (.after .retryable b) := by
  apply lockPost_after
  cases c with
  | create p => exact fun h => h.1 rfl
  | _ => exact id

/-- `attachPath` gives the lock back only when it aborts the transaction -/
theorem wp_attachPath_lock {α : Type} {Q : Except Stop α → AliasLock → Prop} {x : XactState}
    {inode : Inode} {flags : UInt32} {f : Fin N → XProg n N α}
    (he : Q (.error .internalError) (.inside x))
    (ha : Q (.error (.abort .busysentinel)) (.after x false))
    (h : ∀ koa, wp (noted aliasLock) (f koa) Q (.inside x)) :
    wp (noted aliasLock) (attachPath inode flags >>= f) Q (.inside x) := by
  apply wp_bind
  simp only [attachPath, call_bind, wp_noted_op]
  intro found
  cases found with
  | none =>
    simp only [wp_noted_op]
    intro koa _
    exact wp_acquireNew_lock he (h koa)
  | some koa =>
    simp only [wp_noted_op]
    intro _ _ _ xret
    split
    · simp only [wp_noted_op]
      intro _ _ _
      exact ha
    · simp only [wp_noted_op]
      intro _
      exact h koa

theorem xOpen_lock (p : Path) (flags : OpenFlags) (result : Option Nat) :
    wp (noted aliasLock) (xOpen p flags result : XProg n N Int) (LockPost (.open p flags)) .free := by
  unfold xOpen
  simp only [call_bind, wp_noted_op]
  intro x
  cases x
  case retryable =>
    simp only [wp_noted_op]
    intro _ inode
    split
    · simp only [wp_noted_op]
      intro _
      exact wp_finish_lock lockPost_retryable
    · simp only [wp_noted_op]
      intro opened
      cases opened with
      | error e =>
        simp only [wp_noted_op]
        intro _
        exact wp_finish_lock lockPost_retryable
      | ok fildes =>
        simp only [wp_noted_op]
        intro found
        cases found with
        | some koa =>
          simp only [wp_noted_op]
          intro _ _ _ _ xret
          split
          · simp only [wp_noted_op]
            intro _ _ _ _ _
            exact lockPost_retryable
          · apply wp_openRegister_lock trivial
            simp only [wp_noted_op]
            intro _ _
            exact wp_finish_lock lockPost_retryable
        | none =>
          simp only [wp_noted_op]
          intro koa _ _
          apply wp_acquireNew_lock trivial
          apply wp_openRegister_lock trivial
          simp only [wp_noted_op]
          intro _ _
          exact wp_finish_lock lockPost_retryable
  case irrevocable | nontransactional =>
    simp only [wp_noted_op]
    intro _ opened
    cases opened with
    | error e =>
      simp only [wp_noted_op]
      intro _
      exact wp_finish_lock (lockPost_after id)
    | ok fildes =>
      simp only [wp_noted_op, koaOfInode, call_bind, op_bind]
      intro inode found
      cases found with
      | some koa =>
        simp only [pure_eq, ret_bind, wp_noted_op]
        intro _ _ _ _ _
        exact wp_finish_lock (lockPost_after id)
      | none =>
        simp only [call_bind, wp_noted_op]
        intro koa _ _ _ _ _
        exact wp_finish_lock (lockPost_after id)

theorem xCreateCase1_lock (p : Path) (result : Option Nat) :
    wp (noted aliasLock) (xCreateCase1 p result : XProg n N Int) (LockPost (.create p))
      (.inside .retryable) := by
  unfold xCreateCase1
  simp only [call_bind, wp_noted_op]
  intro opened
  cases opened with
  | error e =>
    simp only [wp_noted_op]
    intro _
    exact wp_finish_lock lockPost_retryable
  | ok fildes =>
    simp only [wp_noted_op]
    intro inode koaNew _ _
    apply wp_acquireNew_lock trivial
    apply wp_allocArgs_lock trivial
    simp only [wp_noted_op]
    intro _ _ _
    exact wp_finish_lock lockPost_retryable

theorem wp_createIsolate_lock {inode : Inode} {Q : Except Stop Int → AliasLock → Prop}
    {f : Unit → XProg n N Int} (ha : Q (.error (.abort .busysentinel)) (.after .retryable false))
    (h : wp (noted aliasLock) (f ()) Q (.inside .retryable)) :
    wp (noted aliasLock) (xCreateIsolate inode >>= f) Q (.inside .retryable) := by
  apply wp_bind
  simp only [xCreateIsolate, call_bind, wp_noted_op]
  intro found
  cases found with
  | none => exact h
  | some koaOld =>
    simp only [xCreateCase2a, call_bind, wp_noted_op]
    intro _ _ xret
    split
    · simp only [wp_noted_op]
      intro _ _
      exact ha
    · rw [call, wp_noted_op]
      intro _
      exact h

theorem xCreateCase2_lock (p : Path) (inode : Inode) (result : Option Nat) :
    wp (noted aliasLock) (xCreateCase2 p inode result : XProg n N Int) (LockPost (.create p))
      (.inside .retryable) := by
  unfold xCreateCase2
  apply wp_createIsolate_lock lockPost_retryable
  simp only [call_bind, wp_noted_op]
  intro temp _ opened
  cases opened with
  | error e =>
    simp only [wp_noted_op]
    intro _ _
    exact wp_finish_lock lockPost_retryable
  | ok fildes =>
    simp only [wp_noted_op]
    intro inode' koaNew _ _
    apply wp_acquireNew_lock trivial
    apply wp_allocArgs_lock trivial
    simp only [wp_noted_op]
    intro _ _ _ _
    exact wp_finish_lock lockPost_retryable

theorem xCreate_lock (p : Path) (result : Option Nat) :
    wp (noted aliasLock) (xCreate p result : XProg n N Int) (LockPost (.create p)) .free := by
  unfold xCreate
  simp only [call_bind, wp_noted_op]
  intro x
  cases x
  case retryable =>
    simp only [wp_noted_op]
    intro _ inode
    split
    · exact xCreateCase1_lock p result
    · exact xCreateCase2_lock p inode result
  case irrevocable | nontransactional =>
    simp only [wp_noted_op]
    intro _ opened
    cases opened with
    | error e =>
      -- the lock is not given back
      apply wp_finish_lock
      constructor
      · intro h
        cases h.free
      · intro h
        exact (h ⟨fun hx => (nomatch hx), rfl⟩).elim
    | ok fildes =>
      simp only [wp_noted_op]
      intro inode koaNew _ _ _ _ _
      apply wp_finish_lock
      apply lockPost_after
      intro h
      cases h.2

theorem xClose_lock (fildes : Nat) (result : Option Nat) :
    wp (noted aliasLock) (xClose fildes result : XProg n N Int) (LockPost (.close fildes)) .free := by
  unfold xClose
  simp only [call_bind, wp_noted_op]
  intro x
  cases x
  case retryable =>
    simp only [wp_noted_op]
    intro _ found
    cases found with
    | none =>
      simp only [wp_noted_op]
      intro _
      exact wp_finish_lock (lockPost_of_balanced (AliasLock.balanced_unused _) id)
    | some koa =>
      simp only [wp_noted_op]
      intro _ xret _
      split
      · exact lockPost_of_balanced (AliasLock.balanced_unused _) id
      · apply wp_allocArgs_lock trivial
        simp only [wp_noted_op]
        intro _ _
        exact wp_finish_lock (lockPost_of_balanced (AliasLock.balanced_unused _) id)
  case irrevocable | nontransactional =>
    simp only [wp_noted_op]
    intro _ closed
    cases closed with
    | error e =>
      simp only [wp_noted_op]
      intro _
      exact wp_finish_lock (lockPost_after id)
    | ok _ =>
      simp only [wp_noted_op]
      intro found
      cases found with
      | none => trivial
      | some koa =>
        simp only [wp_noted_op]
        intro _ _
        exact wp_finish_lock (lockPost_after id)

theorem wp_renameAside_lock {Q : Except Stop Int → AliasLock → Prop} {newpath : Path}
    {inode : Inode} {f : Option (Fin N × Path) → XProg n N Int}
    (he : Q (.error .internalError) (.inside .retryable))
    (ha : Q (.error (.abort .busysentinel)) (.after .retryable false))
    (h : ∀ k, wp (noted aliasLock) (f k) Q (.inside .retryable)) :
    wp (noted aliasLock) (xRenameAside newpath inode >>= f) Q (.inside .retryable) := by
  apply wp_bind
  unfold xRenameAside
  split
  · exact h none
  · apply wp_attachPath_lock
    · exact he
    · exact ha
    · intro koa
      simp only [call_bind, wp_noted_op]
      intro temp _
      exact h (some (koa, temp))

theorem xRename_lock (old new : Path) (result : Option Nat) :
    wp (noted aliasLock) (xRename old new result : XProg n N Int) (LockPost (.rename old new))
      .free := by
  unfold xRename
  simp only [call_bind, wp_noted_op]
  intro x
  cases x
  case retryable =>
    simp only [wp_noted_op]
    intro _ oldInode
    split
    · simp only [wp_noted_op]
      intro _
      exact wp_finish_lock lockPost_retryable
    · apply wp_attachPath_lock (x := .retryable) trivial lockPost_retryable
      intro oldKoa
      simp only [wp_noted_op]
      intro newInode
      apply wp_renameAside_lock trivial lockPost_retryable
      intro newKoa
      simp only [wp_noted_op]
      intro _
      apply wp_allocArgs_lock trivial
      simp only [wp_noted_op]
      intro _ _ _
      exact wp_finish_lock lockPost_retryable
  case irrevocable | nontransactional =>
    simp only [wp_noted_op]
    intro _
    exact wp_finish_lock (lockPost_of_balanced (AliasLock.balanced_unused _) id)

theorem xUnlink_lock (p : Path) (result : Option Nat) :
    wp (noted aliasLock) (xUnlink p result : XProg n N Int) (LockPost (.unlink p)) .free := by
  unfold xUnlink
  simp only [call_bind, wp_noted_op]
  intro x
  cases x
  case retryable =>
    simp only [wp_noted_op]
    intro _ inode
    split
    · simp only [wp_noted_op]
      intro _
      exact wp_finish_lock lockPost_retryable
    · apply wp_attachPath_lock (x := .retryable) trivial lockPost_retryable
      intro koa
      apply wp_allocArgs_lock trivial
      simp only [wp_noted_op]
      intro _ _
      exact wp_finish_lock lockPost_retryable
  case irrevocable | nontransactional =>
    simp only [wp_noted_op]
    intro _
    exact wp_finish_lock (lockPost_of_balanced (AliasLock.balanced_unused _) id)

theorem call_lock {c : XCall} (hc : c.OnAliases) (result : Option Nat) :
    wp (noted aliasLock) (c.prog result : XProg n N Int) (LockPost c) .free := by
  cases c with
  | «open» p flags => exact xOpen_lock p flags result
  | create p => exact xCreate_lock p result
  | close fildes => exact xClose_lock fildes result
  | rename old new => exact xRename_lock old new result
  | unlink p => exact xUnlink_lock p result
  | _ => exact hc.elim

/-! ## the actions -/

/-- the actions that those calls register -/
def XAction.OnAliases : XAction N → Prop
  | .openUndo _ _ => True
  | .closeCommit _ _ => True
  | .createCase1Undo _ _ _ => True
  | .createCase2Commit _ => True
  | .createCase2Undo _ => True
  | .renameCommit _ => True
  | .renameUndo _ => True
  | .unlinkCommit _ _ => True
  | _ => False

def AliasLock.busy : AliasLock := ⟨true, 1, 0, false, none, false⟩

theorem AliasLock.balanced_free : AliasLock.free.Balanced := ⟨Nat.zero_le _, rfl, rfl, rfl⟩

theorem AliasLock.balanced_done : (⟨false, 1, 1, false, none, false⟩ : AliasLock).Balanced :=
  ⟨le_rfl, rfl, rfl, rfl⟩

theorem wp_renameDetach_lock {α : Type} {args : RenameArgs N} {f : Unit → XProg n N α}
    {Q : Except Stop α → AliasLock → Prop} (h : wp (noted aliasLock) (f ()) Q .busy) :
    wp (noted aliasLock) (xRenameDetach args >>= f) Q .free := by
  apply wp_bind
  obtain ⟨oldKoa, newKoa, old, new⟩ := args
  simp only [xRenameDetach, call_bind, wp_noted_op]
  intro _ _
  cases newKoa with
  | none =>
    simp only [pure_eq, wp_noted_op]
    intro _
    exact h
  | some k =>
    simp only [wp_noted_op]
    intro _ _
    rw [call, wp_noted_op]
    intro _
    exact h

theorem wp_renameUnlock_lock {args : RenameArgs N} {v : Int} :
    wp (noted aliasLock) (xRenameUnlock args >>= fun _ => pure v : XProg n N Int)
      (fun _ l => l.Balanced) .busy := by
  apply wp_bind
  obtain ⟨oldKoa, newKoa, old, new⟩ := args
  cases newKoa with
  | none =>
    simp only [xRenameUnlock, pure_eq, call_bind, wp_noted_op]
    intro _
    rw [call, wp_noted_op]
    intro _
    exact AliasLock.balanced_done
  | some k =>
    simp only [xRenameUnlock, call_bind, wp_noted_op]
    intro _ _
    rw [call, wp_noted_op]
    intro _
    exact AliasLock.balanced_done

theorem xRenameCommit_lock (args : RenameArgs N) :
    wp (noted aliasLock) (xRenameCommit args : XProg n N Int) (fun _ l => l.Balanced) .free := by
  unfold xRenameCommit
  apply wp_renameDetach_lock
  simp only [call_bind, wp_noted_op]
  intro _
  exact wp_renameUnlock_lock

theorem xRenameUndo_lock (args : RenameArgs N) :
    wp (noted aliasLock) (xRenameUndo args : XProg n N Int) (fun _ l => l.Balanced) .free := by
  unfold xRenameUndo
  apply wp_renameDetach_lock
  simp only [call_bind, wp_noted_op]
  intro unlinked
  split
  · simp only [wp_noted_op]
    intro renamed
    cases renamed with
    | error e => exact wp_renameUnlock_lock
    | ok _ => exact wp_renameUnlock_lock
  · exact wp_renameUnlock_lock

/-- every action that those calls register -/
theorem action_lock {a : XAction N} (ha : a.OnAliases) :
    wp (noted aliasLock) (a.prog : XProg n N Int) (fun _ l => l.Balanced) .free := by
  cases a with
  | openUndo fd koa =>
    simp only [XAction.prog, xOpenUndo, call_bind, wp_noted_op]
    intro _ _ _ _ _ _
    exact AliasLock.balanced_done
  | closeCommit fd koa =>
    simp only [XAction.prog, xCloseCommit, call_bind, wp_noted_op]
    intro _ _ detached
    cases detached with
    | true =>
      intro _ _ rfl _ _ rfl _ _ rfl
      exact AliasLock.balanced_done
    | false =>
      intro _ _ rfl _ _ rfl
      exact AliasLock.balanced_done
  | createCase1Undo fd koa p =>
    simp only [XAction.prog, xCreateCase1Undo, call_bind, wp_noted_op]
    intro _ unlinked _ _ _
    cases unlinked with
    | error e => exact AliasLock.balanced_done
    | ok _ => exact AliasLock.balanced_done
  | createCase2Commit args =>
    simp only [XAction.prog, xCreateCase2Commit, call_bind, wp_noted_op]
    intro _
    exact AliasLock.balanced_free
  | createCase2Undo args =>
    simp only [XAction.prog, xCreateCase2Undo, call_bind, wp_noted_op]
    intro _ unlinked renamed _ _ _
    split
    · exact AliasLock.balanced_done
    · exact AliasLock.balanced_done
    · exact AliasLock.balanced_done
  | renameCommit args => exact xRenameCommit_lock args
  | renameUndo args => exact xRenameUndo_lock args
  | unlinkCommit koa p =>
    simp only [XAction.prog, xUnlinkCommit, call_bind, wp_noted_op]
    intro _ _ _ _ _ _
    exact AliasLock.balanced_done
  | _ => exact ha.elim

/-! ## on any handler -/

/-- **The lock of the alias cache is balanced**, whatever the handler responds: after every call that
returns or aborts the transaction, but for an `x_create` outside a retryable transaction whose
`open` fails, and after every action. -/
theorem alias_lock_balanced {σ : Type} (h : Handler (Instr n N) σ) (s s' : σ) (l : AliasLock)
    (r : Except Stop Int) :
    (∀ (c : XCall) (result : Option Nat), c.OnAliases →
      run (monitored h aliasLock) (c.prog result) (s, .free) = some (r, (s', l)) →
      r ≠ .error .internalError → (l.Balanced ↔ ¬ c.createFailed l)) ∧
    (∀ a : XAction N, a.OnAliases →
      run (monitored h aliasLock) a.prog (s, .free) = some (r, (s', l)) → l.Balanced) := by
  constructor
  · intro c result hc hrun hr
    have hpost : LockPost c r l := run_monitored (call_lock hc result) hrun
    cases r with
    | ok v => exact hpost
    | error e =>
      cases e with
      | abort reason => exact hpost
      | internalError => exact (hr rfl).elim
  · intro a ha hrun
    exact run_monitored (action_lock ha) hrun

/-- `x_create` outside a transaction -/
theorem alias_lock_balanced_create :
    ∃ s l, run (monitored handle aliasLock) ((XCall.create "c").prog none)
        (smallMach smallKernel, .free) = some (.ok 3, (s, l)) ∧
      ¬ (XCall.create "c").createFailed l ∧ l.Balanced := by
  have hrun : ((run (monitored handle aliasLock) ((XCall.create "c").prog none)
      (smallMach smallKernel, .free)).map fun r => (r.1, r.2.2)) =
        some (.ok 3, .after .nontransactional false) := by decide +kernel
  obtain ⟨⟨r, s, l⟩, h, hb⟩ := Option.map_eq_some_iff.mp hrun
  obtain ⟨rfl, rfl⟩ : r = .ok 3 ∧ l = .after .nontransactional false := by
    simpa using hb
  have hopen : ¬ (XCall.create "c").createFailed (.after .nontransactional false) :=
    fun hf => nomatch hf.2
  exact ⟨s, _, h, hopen, ((alias_lock_balanced handle _ s _ _).1 (.create "c") none trivial h
    (fun he => nomatch he)).mpr hopen⟩

/-- the same call when `open` fails: the lock stays held -/
theorem alias_lock_kept :
    ((run (monitored handle aliasLock) ((XCall.create "c").prog none)
      (withAnswers (smallMach smallKernel) { smallAnswers with faults := [some Errno.eacces] },
        .free)).map fun r => (r.1, r.2.2)) =
      some (.ok (-1), ⟨true, 1, 0, false, some .nontransactional, true⟩) ∧
    ¬ AliasLock.Balanced ⟨true, 1, 0, false, some .nontransactional, true⟩ := by
  refine ⟨by decide +kernel, ?_⟩
  intro h
  cases h.free

end XCalls
