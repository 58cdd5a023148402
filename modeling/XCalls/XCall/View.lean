import XCalls.XCall.Run

/-!
# The kernel and the actions, seen from the xCalls

What an instruction does to the kernel and to the lists of actions does not depend on the KOAs and
the sentinels.

* `View`, `natStep`, `okStep`   the part of the machine, and the steps on it;
* `handle_natStep`   every instruction does such a step;
* `run_view`         the rule for a program on which every system call succeeds;
* `ListsOk`          the sentinel manager's entries of the lists.
-/

set_option linter.unusedSectionVars false

namespace XCalls
open Prog
variable {T : Type} [DecidableEq T] {n N : Nat}

/-! ## the view of the kernel and of the actions -/

/-- the xCalls' actions of a list, with their orders -/
def others (l : List (XEntry N)) : List (XAction N × Int32) :=
  l.filterMap fun e =>
    match e.function with
    | .other a => some (a, e.order)
    | _ => none

structure View (N : Nat) where
  kernel : Kernel
  temp : Path
  file : FileId
  fd : Nat
  xactstate : XactState
  commits : List (XAction N × Int32)
  undos : List (XAction N × Int32)

def view (m : XMach T n N) : View N :=
  { kernel := m.world.kernel
    temp := m.world.answers.temp
    file := m.world.answers.file
    fd := m.world.answers.fd
    xactstate := m.world.xactstate
    commits := others m.txd.commitActionList.entries
    undos := others m.txd.undoActionList.entries }

/-- a system call on the view -/
def View.sys {β : Type} (v : View N) (f : Kernel → Except Errno β × Kernel) (b : Except Errno β)
    (v' : View N) : Prop :=
  b = (f v.kernel).1 ∧ v' = { v with kernel := (f v.kernel).2 }

/-- an instruction whose system calls do what the kernel says; the KOAs and the sentinels may
respond anything -/
def natStep : StepRel (Instr n N) (View N)
  | _, .getXactstate, b, v, v' => b = v.xactstate ∧ v' = v
  | _, .registerCommitAction a _ order, _, v, v' =>
    v' = { v with commits := v.commits ++ [(a, order)] }
  | _, .registerUndoAction a _ order, _, v, v' => v' = { v with undos := v.undos ++ [(a, order)] }
  | _, .path2inode path, b, v, v' =>
    b = ⟨(v.kernel.names path).elim 0 FileId.ino, v.kernel.names path⟩ ∧ v' = v
  | _, .mktemp _, b, v, v' => b = v.temp ∧ v' = v
  | _, .libcOpen path flags, b, v, v' => v.sys (fun k => sysOpen k path flags v.file v.fd) b v'
  | _, .libcClose fd, b, v, v' => v.sys (fun k => sysClose k fd) b v'
  | _, .libcDup fd, b, v, v' => v.sys (fun k => sysDup k fd v.fd) b v'
  | _, .libcRead fd nbyte, b, v, v' => v.sys (fun k => sysRead k fd nbyte) b v'
  | _, .libcWrite fd buf, b, v, v' => v.sys (fun k => sysWrite k fd buf) b v'
  | _, .libcLseek fd offset whence, b, v, v' => v.sys (fun k => sysLseek k fd offset whence) b v'
  | _, .libcFtruncate fd length, b, v, v' => v.sys (fun k => sysFtruncate k fd length) b v'
  | _, .libcPwrite fd buf offset, b, v, v' => v.sys (fun k => sysPwrite k fd buf offset) b v'
  | _, .libcRename old new, b, v, v' => v.sys (fun k => sysRename k old new) b v'
  | _, .libcLink old new, b, v, v' => v.sys (fun k => sysLink k old new) b v'
  | _, .libcUnlink path, b, v, v' => v.sys (fun k => sysUnlink k path) b v'
  | _, .libcPipe, b, v, v' => ∃ fd1, v.sys (fun k => sysPipe k v.file v.fd fd1) b v'
  | _, .libcSocket _ _ _, b, v, v' => v.sys (fun k => sysSocket k v.file v.fd) b v'
  | _, .libcFsync fd, b, v, v' => v.sys (fun k => sysFsync k fd) b v'
  | _, .libcFdatasync fd, b, v, v' => v.sys (fun k => sysFsync k fd) b v'
  | _, .libcSendmsg fd msg _, b, v, v' => v.sys (fun k => sysSendmsg k fd msg.iov.length) b v'
  | _, .libcRecvmsg _ _, b, v, v' => v.sys (fun k => (b, k)) b v'
  | _, _, _, v, v' => v' = v

/-- the same when every system call succeeds -/
def okStep : StepRel (Instr n N) (View N) :=
  fun i b v v' => natStep i b v v' ∧ succeeds i b = true

/-! ## the handler on the view -/

section
variable {m m' : XMach T n N}

@[simp] theorem others_append (l l' : List (XEntry N)) :
    others (l ++ l') = others l ++ others l' := List.filterMap_append

theorem syscall_txd {β : Type} (m : XMach T n N) (f : Kernel → Except Errno β × Kernel) :
    (syscall m f).2.txd = m.txd := by
  unfold syscall
  cases m.world.answers.faults.head?.join <;> rfl

/-- a system call fails, or does what the kernel says -/
theorem syscall_cases {β : Type} {f : Kernel → Except Errno β × Kernel} {b : Except Errno β}
    (h : syscall m f = (b, m')) :
    (∃ e, m.world.answers.faults.head?.join = some e ∧ b = .error e ∧
      m' = { m with world := { m.world with
        answers := { m.world.answers with faults := m.world.answers.faults.tail } } }) ∨
    m.world.answers.faults.head?.join = none ∧ b = (f m.world.kernel).1 ∧
      m' = { m with world := { m.world with
        kernel := (f m.world.kernel).2
        answers := { m.world.answers with faults := m.world.answers.faults.tail } } } := by
  unfold syscall at h
  cases hf : m.world.answers.faults.head?.join with
  | some e =>
    rw [hf] at h
    cases h
    exact Or.inl ⟨e, rfl, rfl, rfl⟩
  | none =>
    rw [hf] at h
    cases h
    exact Or.inr ⟨rfl, rfl, rfl⟩

theorem syscall_sys {β : Type} {f : Kernel → Except Errno β × Kernel} {b : Except Errno β}
    (h : syscall m f = (b, m')) (hb : m.world.answers.faults = [] ∨ b.isOk = true) :
    (view m).sys f b (view m') ∧ m'.world.answers.faults = m.world.answers.faults.tail := by
  rcases syscall_cases h with ⟨e, hf, rfl, rfl⟩ | ⟨hf, rfl, rfl⟩
  · rcases hb with hb | hb
    · rw [hb] at hf
      cases hf
    · cases hb
  · exact ⟨⟨rfl, rfl⟩, rfl⟩

/-- the xCalls' actions of both lists -/
def actions (txd : TxDesc (ActOf (XAction N)) (Fin n)) :
    List (XAction N × Int32) × List (XAction N × Int32) :=
  (others txd.commitActionList.entries, others txd.undoActionList.entries)

theorem actions_registerSentinelmgr (txd : TxDesc (ActOf (XAction N)) (Fin n)) :
    actions (registerSentinelmgrCommitAction txd) = actions txd ∧
      actions (registerSentinelmgrUndoAction txd) = actions txd := by
  unfold registerSentinelmgrCommitAction registerSentinelmgrUndoAction
  refine ⟨?_, ?_⟩
  all_goals
    split
    · simp [actions, txRegisterCommitAction_eq, txRegisterUndoAction_eq, others]
    · rfl

/-- `txc_sentinel_tryacquire` changes the lists by the sentinel manager's actions only -/
theorem actions_tryacquire {mgr mgr' : SentinelMgr T n}
    {txd txd' : TxDesc (ActOf (XAction N)) (Fin n)} {t : T} {x : XactState} {s : Fin n}
    {flags : UInt32} {result r : Int}
    (h : sentinelTryacquire mgr txd t x s flags result = some (r, mgr', txd')) :
    actions txd' = actions txd := by
  have hreg : actions (registerSentinelmgrCommitAction (registerSentinelmgrUndoAction txd))
      = actions txd := by
    rw [(actions_registerSentinelmgr _).1, (actions_registerSentinelmgr _).2]
  unfold sentinelTryacquire at h
  split at h
  · cases x with
    | nontransactional => cases h
    | irrevocable =>
      cases h
      rfl
    | retryable =>
      simp only at h
      split at h
      all_goals
        cases h
        exact hreg
  · cases h
    rfl

/-- **What an instruction does to the view.** -/
theorem handle_natStep {β : Type} {i : Instr n N β} {b : β} (h : handle i m = some (b, m'))
    (hb : m.world.answers.faults = [] ∨ succeeds i b = true) :
    natStep i b (view m) (view m') ∧
      (m.world.answers.faults = [] → m'.world.answers.faults = []) := by
  have hsys : ∀ {γ : Type} {f : Kernel → Except Errno γ × Kernel} {b : Except Errno γ},
      some (syscall m f) = some (b, m') → (m.world.answers.faults = [] ∨ b.isOk = true) →
      (view m).sys f b (view m') ∧
        (m.world.answers.faults = [] → m'.world.answers.faults = []) := by
    intro γ f b hs hb
    obtain ⟨h1, h2⟩ := syscall_sys (Option.some.inj hs) hb
    exact ⟨h1, fun h0 => by rw [h2, h0]; rfl⟩
  cases i with
  | libcOpen | libcClose | libcDup | libcRead | libcWrite | libcLseek | libcFtruncate | libcPwrite
  | libcRename | libcLink | libcUnlink | libcSocket | libcFsync | libcFdatasync | libcSendmsg =>
    exact hsys h hb
  | libcPipe =>
    obtain ⟨h1, h2⟩ := hsys h hb
    exact ⟨⟨_, h1⟩, h2⟩
  | libcRecvmsg fd flags =>
    obtain ⟨h1, h2⟩ := hsys h hb
    exact ⟨⟨rfl, h1.2⟩, h2⟩
  | getXactstate | path2inode | mktemp =>
    cases h
    exact ⟨⟨rfl, rfl⟩, id⟩
  | lockAliasCache | unlockAliasCache | lockFd | unlockFd | lockFdsRefbyKoa | unlockFdsRefbyKoa
  | lookupFd2koa | linearFree | garbage | attachKoa | getBuffer | setBuffer =>
    cases h
    exact ⟨rfl, id⟩
  | registerCommitAction a result order =>
    cases h
    refine ⟨?_, id⟩
    simp [natStep, view, txRegisterCommitAction_eq, others]
  | registerUndoAction a result order =>
    cases h
    refine ⟨?_, id⟩
    simp [natStep, view, txRegisterUndoAction_eq, others]
  | linearMalloc size =>
    simp only [handle] at h
    split at h
    all_goals
      cases h
      exact ⟨rfl, id⟩
  | store p v =>
    cases h
    cases p <;> exact ⟨rfl, id⟩
  | tryacquire s flags =>
    simp only [handle, Option.map_eq_some_iff] at h
    obtain ⟨⟨r, mgr, txd⟩, h1, h2⟩ := h
    cases h2
    obtain ⟨hc, hu⟩ := Prod.mk.inj (actions_tryacquire h1)
    refine ⟨?_, id⟩
    show view _ = view m
    simp only [view, hc, hu]
  | lookupInode inode =>
    cases h
    rw [World.meet_eq]
    exact ⟨rfl, id⟩
  | detachKoa k =>
    cases h
    rw [World.meet_eq]
    exact ⟨rfl, id⟩
  | createKoa | createKoaOf =>
    simp only [handle, Option.map_eq_some_iff] at h
    obtain ⟨⟨k, mgr⟩, -, h2⟩ := h
    cases h2
    exact ⟨rfl, id⟩
  | attachFd k fd lock =>
    simp only [handle, Option.map_eq_some_iff] at h
    obtain ⟨mgr, -, h2⟩ := h
    cases h2
    exact ⟨rfl, id⟩
  | detachFd k fd lock =>
    cases h
    rw [World.meet_eq]
    split <;> exact ⟨rfl, id⟩
  | getSentinel k =>
    simp only [handle, Option.map_eq_some_iff] at h
    obtain ⟨s, -, h2⟩ := h
    cases h2
    exact ⟨rfl, id⟩

theorem handleOk_okStep {β : Type} {i : Instr n N β} {b : β} (h : handleOk i m = some (b, m')) :
    okStep i b (view m) (view m') := by
  obtain ⟨h1, h2⟩ := only_eq_some.mp h
  exact ⟨(handle_natStep h1 (Or.inr h2)).1, h2⟩

/-- the rule for runs on which every system call succeeds -/
theorem run_view {α : Type} {p : XProg n N α} {Q : Except Stop α → View N → Prop}
    {r : Except Stop α} (hwp : wp okStep p Q (view m)) (h : run handleOk p m = some (r, m')) :
    Q r (view m') := by
  have hR : ∀ {β : Type} (i : Instr n N β) (b : β) (s s' : XMach T n N), True →
      handleOk i s = some (b, s') → okStep i b (view s) (view s') ∧ True :=
    fun i b s s' _ hs => ⟨handleOk_okStep hs, trivial⟩
  exact (wp_run hR trivial hwp h).1

end

/-! ## the sentinel manager's entries -/

/-- the entries that are not the xCalls' have orders that are not negative -/
def MgrOrdersOk (l : List (XEntry N)) : Prop :=
  ∀ e ∈ l, (∀ a, e.function ≠ .other a) → 0 ≤ e.order

def ListsOk (txd : TxDesc (ActOf (XAction N)) (Fin n)) : Prop :=
  MgrOrdersOk txd.commitActionList.entries ∧ MgrOrdersOk txd.undoActionList.entries

theorem MgrOrdersOk.snoc {l : List (XEntry N)} (h : MgrOrdersOk l) {e : XEntry N}
    (he : (∀ a, e.function ≠ .other a) → 0 ≤ e.order) : MgrOrdersOk (l ++ [e]) := by
  intro x hx
  rcases List.mem_append.mp hx with hx | hx
  · exact h x hx
  · rw [List.mem_singleton.mp hx]
    exact he

theorem ListsOk.registerSentinelmgr {txd : TxDesc (ActOf (XAction N)) (Fin n)} (h : ListsOk txd) :
    ListsOk (registerSentinelmgrCommitAction txd) ∧
      ListsOk (registerSentinelmgrUndoAction txd) := by
  obtain ⟨hc, hu⟩ := h
  have h2 : (0 : Int32) ≤ sentinelmgrActionOrder := by decide
  refine ⟨?_, ?_⟩
  · unfold registerSentinelmgrCommitAction
    split
    · rw [txRegisterCommitAction_eq]
      refine ⟨?_, hu⟩
      simp only [entries_registerAction]
      exact hc.snoc fun _ => h2
    · exact ⟨hc, hu⟩
  · unfold registerSentinelmgrUndoAction
    split
    · rw [txRegisterUndoAction_eq]
      refine ⟨hc, ?_⟩
      simp only [entries_registerAction]
      exact hu.snoc fun _ => h2
    · exact ⟨hc, hu⟩

theorem handle_listsOk {β : Type} (i : Instr n N β) (b : β) (m m' : XMach T n N)
    (h : handle i m = some (b, m')) (hm : ListsOk m.txd) : ListsOk m'.txd := by
  have hsys : ∀ {γ : Type} {f : Kernel → Except Errno γ × Kernel} {b : Except Errno γ},
      some (syscall m f) = some (b, m') → ListsOk m'.txd := by
    intro γ f b hs
    have ht := syscall_txd m f
    rw [Option.some.inj hs] at ht
    rw [ht]
    exact hm
  cases i with
  | libcOpen | libcClose | libcDup | libcRead | libcWrite | libcLseek | libcFtruncate | libcPwrite
  | libcRename | libcLink | libcUnlink | libcPipe | libcSocket | libcFsync | libcFdatasync
  | libcSendmsg | libcRecvmsg => exact hsys h
  | getXactstate | path2inode | mktemp | lockAliasCache | unlockAliasCache | lockFd | unlockFd
  | lockFdsRefbyKoa | unlockFdsRefbyKoa | lookupFd2koa | linearFree | garbage | attachKoa
  | lookupInode | detachKoa | detachFd | getBuffer | setBuffer =>
    cases h
    exact hm
  | registerCommitAction a result order =>
    cases h
    obtain ⟨hc, hu⟩ := hm
    simp only [txRegisterCommitAction_eq, ListsOk, entries_registerAction]
    exact ⟨hc.snoc fun he => absurd rfl (he a), hu⟩
  | registerUndoAction a result order =>
    cases h
    obtain ⟨hc, hu⟩ := hm
    simp only [txRegisterUndoAction_eq, ListsOk, entries_registerAction]
    exact ⟨hc, hu.snoc fun he => absurd rfl (he a)⟩
  | linearMalloc size =>
    simp only [handle] at h
    split at h
    all_goals
      cases h
      exact hm
  | store p v =>
    cases h
    rw [Mach.store_txd]
    exact hm
  | tryacquire s flags =>
    simp only [handle, Option.map_eq_some_iff] at h
    obtain ⟨⟨r, mgr, txd⟩, h1, h2⟩ := h
    cases h2
    unfold sentinelTryacquire at h1
    split at h1
    · cases hx : m.world.xactstate with
      | nontransactional =>
        rw [hx] at h1
        cases h1
      | irrevocable =>
        rw [hx] at h1
        cases h1
        exact hm
      | retryable =>
        rw [hx] at h1
        have hreg := hm.registerSentinelmgr.2.registerSentinelmgr.1
        simp only at h1
        split at h1
        all_goals
          cases h1
          exact hreg
    · cases h1
      exact hm
  | createKoa | createKoaOf =>
    simp only [handle, Option.map_eq_some_iff] at h
    obtain ⟨⟨k, mgr⟩, -, h2⟩ := h
    cases h2
    exact hm
  | attachFd k fd lock =>
    simp only [handle, Option.map_eq_some_iff] at h
    obtain ⟨mgr, -, h2⟩ := h
    cases h2
    exact hm
  | getSentinel k =>
    simp only [handle, Option.map_eq_some_iff] at h
    obtain ⟨s, -, h2⟩ := h
    cases h2
    exact hm

/-- the handler does what `handle` does, where it does anything -/
def Handles (h : Handler (Instr n N) (XMach T n N)) : Prop :=
  ∀ {β : Type} (i : Instr n N β) (b : β) (s s' : XMach T n N), h i s = some (b, s') →
    handle i s = some (b, s')

theorem handles_handle : Handles (handle : Handler (Instr n N) (XMach T n N)) :=
  fun _ _ _ _ h => h

theorem handles_handleOk : Handles (handleOk : Handler (Instr n N) (XMach T n N)) :=
  fun _ _ _ _ h => (only_eq_some.mp h).1

theorem xRun_listsOk {h : Handler (Instr n N) (XMach T n N)} (hh : Handles h) {cs : List Request} :
    ∀ {m m' : XMach T n N} {out : Option AbortReason}, xRun h cs m = some (out, m') →
      ListsOk m.txd → ListsOk m'.txd := by
  induction cs with
  | nil =>
    intro m m' out h hm
    cases h
    exact hm
  | cons c cs ih =>
    intro m m' out hx hm
    have hrun : ∀ {r : Except Stop Int} {m1 : XMach T n N},
        run h (c.call.prog c.result) (withAnswers m c.answers) = some (r, m1) →
        ListsOk m1.txd := by
      intro r m1 h1
      refine run_inv (J := fun s : XMach T n N => ListsOk s.txd) ?_ h1 hm
      exact fun i b s s' hs => handle_listsOk i b s s' (hh i b s s' hs)
    unfold xRun at hx
    split at hx
    · cases hx
    · exact ih hx (hrun ‹_›)
    · cases hx
      exact hrun ‹_›
    · cases hx

theorem xBegin_lists (m : XMach T n N) :
    ListsOk (xBegin m).txd ∧ actions (xBegin m).txd = ([], []) := by
  have h0 : ListsOk (txInit m.txd) := ⟨(fun e he => by cases he), (fun e he => by cases he)⟩
  show ListsOk (sentinelTransactionPostbegin _) ∧ actions (sentinelTransactionPostbegin _) = _
  unfold sentinelTransactionPostbegin
  split
  · refine ⟨h0.registerSentinelmgr.1.registerSentinelmgr.2, ?_⟩
    rw [(actions_registerSentinelmgr _).2, (actions_registerSentinelmgr _).1]
    rfl
  · exact ⟨h0, rfl⟩

theorem xAbort_lists (m : XMach T n N) (reason : AbortReason) :
    (xAbort m reason).txd.commitActionList = m.txd.commitActionList ∧
      (xAbort m reason).txd.undoActionList = m.txd.undoActionList := by
  show (tmsystemAbortTransaction m.txd reason).commitActionList = _ ∧
    (tmsystemAbortTransaction m.txd reason).undoActionList = _
  unfold tmsystemAbortTransaction tmsystemRegisterGenericUndoAction
  split <;> exact ⟨rfl, rfl⟩

theorem MgrOrdersOk.nonneg {l : List (XEntry N)} (h : MgrOrdersOk l)
    (ho : ∀ x ∈ others l, x.2 = 0 ∨ x.2 = 1) (e : XEntry N) (he : e ∈ l) : 0 ≤ e.order := by
  cases ha : e.function with
  | other a =>
    have hm : (a, e.order) ∈ others l := List.mem_filterMap.mpr ⟨e, he, by simp [ha]⟩
    rcases ho _ hm with h0 | h1
    · rw [show e.order = 0 from h0]
      decide
    · rw [show e.order = 1 from h1]
      decide
  | sentinelmgrCommit | sentinelmgrUndo => exact h e he (by simp [ha])

end XCalls
