import XCalls.XCall.View

/-!
# The actions of the xCalls under the generic actions

* `run_action`    an action returns and registers nothing;
* `others_inOrder`   the order in which a generic action calls the xCalls' actions;
* `Tracks`, `Tracks.undo`   a part of the world under the actions;
* `commit_kernel`   the kernel after the generic commit action;
* `Tracks.abort`, `abort_kernel`   after an attempt that is aborted.
-/

set_option linter.unusedSectionVars false

namespace XCalls
open Prog
variable {T : Type} [DecidableEq T] {n N : Nat}

/-! ## actions return -/

/-- what the actions of the xCalls call: nothing that registers, allocates or ends the process -/
def Instr.InAction : ∀ {β : Type}, Instr n N β → Prop
  | _, .lockAliasCache => True
  | _, .unlockAliasCache => True
  | _, .lockFd _ => True
  | _, .unlockFd _ => True
  | _, .lockFdsRefbyKoa _ => True
  | _, .unlockFdsRefbyKoa _ => True
  | _, .detachKoa _ => True
  | _, .detachFd _ _ _ => True
  | _, .libcClose _ => True
  | _, .libcLseek _ _ _ => True
  | _, .libcFtruncate _ _ => True
  | _, .libcPwrite _ _ _ => True
  | _, .libcRename _ _ => True
  | _, .libcUnlink _ => True
  | _, .libcWrite _ _ => True
  | _, .libcFsync _ => True
  | _, .libcFdatasync _ => True
  | _, .libcSendmsg _ _ _ => True
  | _, .getBuffer _ => True
  | _, .setBuffer _ _ => True
  | _, _ => False

/-- each step of an action is one of these, and what it responds is only looked at -/
theorem every_prog (a : XAction N) : Every (fun _ => Instr.InAction) (a.prog : XProg n N Int) := by
  cases a
  case renameCommit args =>
    obtain ⟨_, _ | _, _, _⟩ := args
    all_goals
      simp only [XAction.prog, xRenameCommit, xRenameDetach, xRenameUnlock, call_bind, op_bind,
        ret_bind, pure_eq]
      repeat' first | exact trivial | refine every_op trivial fun _ => ?_
  case renameUndo args =>
    obtain ⟨_, _ | _, _, _⟩ := args
    all_goals
      simp only [XAction.prog, xRenameUndo, xRenameDetach, xRenameUnlock, call_bind, op_bind,
        ret_bind, pure_eq]
      repeat' first | exact trivial | refine every_op trivial fun _ => ?_ | split
  case writeOvrUndo fd buf nbyteNew nbyteOld =>
    by_cases h : nbyteOld < nbyteNew
    all_goals
      simp only [XAction.prog, xWriteOvrUndo, h, if_true, if_false, call_bind, ret_bind, pure_eq]
      repeat' first | exact trivial | refine every_op trivial fun _ => ?_ | split
  case pipeUndo fd0 fd1 koa0 koa1 =>
    by_cases h : fd0 < fd1
    all_goals
      simp only [XAction.prog, xPipeUndo, lockBoth, h, if_true, if_false, call_bind, op_bind, pure_eq]
      repeat' first | exact trivial | refine every_op trivial fun _ => ?_ | split
  all_goals
    simp only [XAction.prog, xReadUndo, xLseekUndo, xWriteSeqUndo, xOpenUndo, xDupUndo,
      xCloseCommit, xCreateCase1Undo, xCreateCase2Commit, xCreateCase2Undo, xUnlinkCommit,
      xFsyncCommit, xFdatasyncCommit, xWritePipeCommit, xSendmsgCommit, xSocketUndo,
      xReadPipeCommit, xReadPipeUndo, xRecvmsgCommit, xRecvmsgUndo, call_bind, pure_eq]
    repeat' first | exact trivial | refine every_op trivial fun _ => ?_ | split

theorem handle_inAction {β : Type} (i : Instr n N β) (hi : i.InAction) (m : XMach T n N) :
    ∃ b m', handle i m = some (b, m') ∧ m'.txd = m.txd := by
  have hsys : ∀ {γ : Type} (f : Kernel → Except Errno γ × Kernel),
      ∃ b m', some (syscall m f) = some (b, m') ∧ m'.txd = m.txd := by
    intro γ f
    exact ⟨(syscall m f).1, (syscall m f).2, rfl, syscall_txd m f⟩
  cases i with
  | libcClose | libcLseek | libcFtruncate | libcPwrite | libcRename | libcUnlink | libcWrite
  | libcFsync | libcFdatasync | libcSendmsg => exact hsys _
  | lockAliasCache | unlockAliasCache | lockFd | unlockFd | lockFdsRefbyKoa | unlockFdsRefbyKoa
  | detachKoa | detachFd | getBuffer | setBuffer => exact ⟨_, _, rfl, rfl⟩
  | _ => exact hi.elim

/-- **An action returns**, and leaves the descriptor alone. -/
theorem run_action (a : XAction N) (m : XMach T n N) :
    ∃ r m', run handle a.prog m = some (.ok r, m') ∧ m'.txd = m.txd := by
  refine run_every (J := fun s s' : XMach T n N => s'.txd = s.txd) (fun _ => rfl) ?_
    handle_inAction (every_prog a) m
  intro s s' s'' h1 h2
  exact h2.trans h1

theorem exec_other (a : XAction N) (m : XMach T n N) :
    run handle a.prog m = some (.ok (exec (.other a) m).2, (exec (.other a) m).1) := by
  obtain ⟨r, m', h, -⟩ := run_action a m
  simp only [exec, h]

/-! ## actions on the kernel -/

/-- `x_write_ovr_undo` on the kernel -/
def writeOvrUndoSys (fd : Nat) (buf : Option (List UInt8)) (nbyteNew nbyteOld : Int) (k : Kernel) :
    Kernel :=
  let seek := sysLseek k fd (-nbyteNew) .seekCur
  match seek.1, buf with
  | .ok offset, some data =>
    let cut := if nbyteOld < nbyteNew then sysFtruncate seek.2 fd offset else (.ok (), seek.2)
    match cut.1 with
    | .ok _ => (sysPwrite cut.2 fd (data.take nbyteOld.toNat) offset).2
    | .error _ => cut.2
  | _, _ => seek.2

/-- what an action does to the kernel; `x_close_commit` also depends on the KOA -/
def XAction.sys : XAction N → Kernel → Kernel
  | .readUndo fd nbyte, k => (sysLseek k fd (-nbyte) .seekCur).2
  | .lseekUndo fd oldPosition, k => (sysLseek k fd oldPosition .seekSet).2
  | .writeSeqUndo fd nbyteNew, k =>
    let seek := sysLseek k fd (-nbyteNew) .seekCur
    match seek.1 with
    | .ok offset => (sysFtruncate seek.2 fd offset).2
    | .error _ => seek.2
  | .writeOvrUndo fd buf nbyteNew nbyteOld, k => writeOvrUndoSys fd buf nbyteNew nbyteOld k
  | .openUndo fd _, k => (sysClose k fd).2
  | .dupUndo fd _, k => (sysClose k fd).2
  | .closeCommit _ _, k => k
  | .createCase1Undo fd _ pathname, k => (sysClose (sysUnlink k pathname).2 fd).2
  | .createCase2Commit args, k => (sysUnlink k args.tempPathname).2
  | .createCase2Undo args, k =>
    let k := (sysRename (sysUnlink k args.originalPathname).2 args.tempPathname
      args.originalPathname).2
    (sysClose k args.fd).2
  | .renameCommit args, k => (sysUnlink k args.oldpath).2
  | .renameUndo args, k =>
    let k := (sysUnlink k args.newpath).2
    match args.newpathKoa with
    | none => k
    | some (_, temppath) => (sysRename k temppath args.newpath).2
  | .unlinkCommit _ pathname, k => (sysUnlink k pathname).2
  | .fsyncCommit fd, k => (sysFsync k fd).2
  | .fdatasyncCommit fd, k => (sysFsync k fd).2
  | .writePipeCommit fd buf, k => (sysWrite k fd buf).2
  | .sendmsgCommit fd msg _, k => (sysSendmsg k fd msg.iov.length).2
  | .pipeUndo fd0 fd1 _ _, k => (sysClose (sysClose k fd0).2 fd1).2
  | .socketUndo fd _, k => (sysClose k fd).2
  | .readPipeCommit _, k => k
  | .readPipeUndo _, k => k
  | .recvmsgCommit _, k => k
  | .recvmsgUndo _, k => k

/-- every action but `x_close_commit` -/
def XAction.KernelOnly (a : XAction N) : Prop := ∀ fd koa, a ≠ .closeCommit fd koa

theorem wp_sys {a : XAction N} (ha : a.KernelOnly) (v : View N) :
    wp natStep (a.prog : XProg n N Int) (fun _ v' => v'.kernel = a.sys v.kernel) v := by
  cases a with
  | readUndo fd nbyte =>
    simp only [XAction.prog, xReadUndo, call_bind, wp_op, natStep]
    rintro (e | r) _ ⟨-, rfl⟩ <;> rfl
  | lseekUndo fd oldPosition =>
    simp only [XAction.prog, xLseekUndo, call_bind, wp_op, natStep]
    rintro (e | r) _ ⟨-, rfl⟩ <;> rfl
  | writeSeqUndo fd nbyteNew =>
    simp only [XAction.prog, xWriteSeqUndo, call_bind, wp_op, natStep, XAction.sys]
    rintro _ _ ⟨rfl, rfl⟩
    beta_reduce
    cases (sysLseek v.kernel fd (-nbyteNew) .seekCur).1 with
    | error e => rfl
    | ok offset =>
      simp only [wp_op]
      rintro (e | r) _ ⟨-, rfl⟩ <;> rfl
  | writeOvrUndo fd buf nbyteNew nbyteOld =>
    simp only [XAction.prog, xWriteOvrUndo, call_bind, wp_op, natStep, XAction.sys, writeOvrUndoSys]
    rintro _ _ ⟨rfl, rfl⟩
    beta_reduce
    generalize sysLseek v.kernel fd (-nbyteNew) .seekCur = seek
    obtain ⟨e | offset, k⟩ := seek
    · rfl
    · cases buf with
      | none => rfl
      | some data =>
        by_cases hcut : nbyteOld < nbyteNew
        · simp only [hcut, if_true, wp_op]
          rintro _ _ ⟨rfl, rfl⟩
          beta_reduce
          generalize sysFtruncate k fd offset = cut
          obtain ⟨e | r, k'⟩ := cut
          · rfl
          · simp only [wp_op]
            rintro (e | r) _ ⟨-, rfl⟩ <;> rfl
        · simp only [hcut, if_false, pure_eq, ret_bind, wp_op]
          rintro (e | r) _ ⟨-, rfl⟩ <;> rfl
  | openUndo fd koa =>
    simp only [XAction.prog, xOpenUndo, call_bind, wp_op, natStep]
    rintro _ _ rfl _ _ rfl _ _ rfl _ _ ⟨-, rfl⟩ _ _ rfl _ _ rfl
    rfl
  | dupUndo fd koa =>
    simp only [XAction.prog, xDupUndo, call_bind, wp_op, natStep]
    rintro _ _ rfl _ _ rfl _ _ ⟨-, rfl⟩ _ _ rfl
    rfl
  | closeCommit fd koa => exact absurd rfl (ha fd koa)
  | createCase1Undo fd koa pathname =>
    simp only [XAction.prog, xCreateCase1Undo, call_bind, wp_op, natStep]
    rintro _ _ rfl b _ ⟨-, rfl⟩ _ _ rfl _ _ ⟨-, rfl⟩ _ _ rfl
    cases b <;> rfl
  | createCase2Commit args =>
    simp only [XAction.prog, xCreateCase2Commit, call_bind, wp_op, natStep]
    rintro _ _ ⟨-, rfl⟩
    rfl
  | createCase2Undo args =>
    simp only [XAction.prog, xCreateCase2Undo, call_bind, wp_op, natStep]
    rintro _ _ rfl b _ ⟨-, rfl⟩ b' _ ⟨-, rfl⟩ _ _ rfl _ _ ⟨-, rfl⟩ _ _ rfl
    cases b <;> cases b' <;> rfl
  | renameCommit args =>
    obtain ⟨koa, newpathKoa, oldpath, newpath⟩ := args
    cases newpathKoa with
    | none =>
      simp only [XAction.prog, xRenameCommit, xRenameDetach, xRenameUnlock, call_bind, op_bind,
        ret_bind, pure_eq, wp_op, natStep]
      rintro _ _ rfl _ _ rfl _ _ rfl _ _ ⟨-, rfl⟩ _ _ rfl _ _ rfl
      rfl
    | some x =>
      simp only [XAction.prog, xRenameCommit, xRenameDetach, xRenameUnlock, call_bind, op_bind,
        pure_eq, wp_op, natStep]
      rintro _ _ rfl _ _ rfl _ _ rfl _ _ rfl _ _ rfl _ _ ⟨-, rfl⟩ _ _ rfl _ _ rfl _ _ rfl
      rfl
  | renameUndo args =>
    obtain ⟨koa, newpathKoa, oldpath, newpath⟩ := args
    cases newpathKoa with
    | none =>
      simp only [XAction.prog, xRenameUndo, xRenameDetach, xRenameUnlock, call_bind, op_bind,
        ret_bind, pure_eq, wp_op, natStep]
      rintro _ _ rfl _ _ rfl _ _ rfl _ _ ⟨-, rfl⟩ _ _ rfl _ _ rfl
      rfl
    | some x =>
      simp only [XAction.prog, xRenameUndo, xRenameDetach, xRenameUnlock, call_bind, op_bind,
        pure_eq, wp_op, natStep]
      rintro _ _ rfl _ _ rfl _ _ rfl _ _ rfl _ _ rfl _ _ ⟨-, rfl⟩ (e | r) _ ⟨-, rfl⟩ _ _ rfl _ _ rfl
        _ _ rfl
      all_goals rfl
  | unlinkCommit koa pathname =>
    simp only [XAction.prog, xUnlinkCommit, call_bind, wp_op, natStep]
    rintro _ _ rfl _ _ rfl _ _ rfl _ _ ⟨-, rfl⟩ _ _ rfl _ _ rfl
    rfl
  | fsyncCommit | fdatasyncCommit | writePipeCommit | sendmsgCommit =>
    intro _ _ h
    rw [h.2]
    rfl
  | pipeUndo fd0 fd1 koa0 koa1 =>
    by_cases h : fd0 < fd1
    all_goals
      simp only [XAction.prog, xPipeUndo, lockBoth, h, if_true, if_false, call_bind, op_bind, wp_op]
      rintro _ _ rfl _ _ rfl _ _ rfl _ _ rfl _ _ ⟨-, rfl⟩ (e | r) _ ⟨-, rfl⟩ _ _ rfl _ _ rfl <;> rfl
  | socketUndo fd koa =>
    simp only [XAction.prog, xSocketUndo, call_bind, wp_op, natStep]
    rintro _ _ rfl _ _ rfl _ _ ⟨-, rfl⟩ _ _ rfl
    rfl
  | readPipeCommit | readPipeUndo | recvmsgCommit | recvmsgUndo =>
    rintro _ _ rfl _ _ rfl
    rfl

/-- the kernel after an action, when nothing fails for a reason outside the model -/
theorem exec_kernel {a : XAction N} (ha : a.KernelOnly) (m : XMach T n N)
    (hf : m.world.answers.faults = []) :
    (exec (.other a) m).1.world.kernel = a.sys m.world.kernel ∧
      (exec (.other a) m).1.world.answers.faults = [] := by
  have hR : ∀ {β : Type} (i : Instr n N β) (b : β) (s s' : XMach T n N),
      s.world.answers.faults = [] → handle i s = some (b, s') →
      natStep i b (view s) (view s') ∧ s'.world.answers.faults = [] := by
    intro β i b s s' hs hi
    obtain ⟨h1, h2⟩ := handle_natStep hi (Or.inl hs)
    exact ⟨h1, h2 hs⟩
  exact wp_run hR hf (wp_sys ha (view m)) (exec_other a m)

theorem lists_reacquire (t : T) (l : List (SentinelEntry (Fin n))) :
    ∀ s : SentinelMgr T n × TxDesc (ActOf (XAction N)) (Fin n),
      (l.foldl (fun s e => acquireEntry s.1 s.2 t e) s).2.commitActionList
          = s.2.commitActionList ∧
        (l.foldl (fun s e => acquireEntry s.1 s.2 t e) s).2.undoActionList
          = s.2.undoActionList := by
  induction l with
  | nil => exact fun s => ⟨rfl, rfl⟩
  | cons e l ih => exact fun s => ih (acquireEntry s.1 s.2 t e)

/-- the actions register nothing -/
theorem exec_registersNothing :
    RegistersNothing (exec : ActOf (XAction N) → XMach T n N → XMach T n N × Int) := by
  intro a m
  cases a with
  | sentinelmgrCommit => exact ⟨rfl, rfl⟩
  | sentinelmgrUndo =>
    simp only [exec]
    split
    · exact ⟨rfl, rfl⟩
    · unfold reacquireSentinels sentinelmgrTransactionBeforeRetry
      cases sentinelListSort m.world.koamgr.sentinelmgr (retryEntries m.txd.sentinelList) with
      | none => exact ⟨rfl, rfl⟩
      | some pre => exact lists_reacquire m.world.self _ _
  | other a =>
    obtain ⟨r, m', h, htxd⟩ := run_action a m
    simp only [exec, h, htxd]
    exact ⟨trivial, trivial⟩

/-- the sentinel manager's actions leave the kernel alone -/
theorem exec_sentinelmgr (a : ActOf (XAction N)) (ha : ∀ x, a ≠ .other x) (m : XMach T n N) :
    (exec a m).1.world.kernel = m.world.kernel ∧
      (exec a m).1.world.answers = m.world.answers := by
  cases a with
  | sentinelmgrCommit => exact ⟨rfl, rfl⟩
  | sentinelmgrUndo =>
    simp only [exec]
    split
    · exact ⟨rfl, rfl⟩
    · unfold reacquireSentinels
      split <;> exact ⟨rfl, rfl⟩
  | other a => exact absurd rfl (ha a)

/-! ## the generic actions on the kernel -/

def effects (l : List (XAction N × Int32)) (k : Kernel) : Kernel := l.foldl (fun k x => x.1.sys k) k

theorem effects_append (l l' : List (XAction N × Int32)) (k : Kernel) :
    effects (l ++ l') k = effects l' (effects l k) := List.foldl_append

/-- what the calls of the actions do to a part `abs` of the world, where each xCall's action has the
effect `eff` and the sentinel manager's have none, as long as `J` holds -/
structure Tracks (exec : ActOf (XAction N) → XMach T n N → XMach T n N × Int) {γ : Type}
    (abs : World T n N → γ) (J : World T n N → Prop) (P : XAction N → Prop)
    (eff : XAction N → γ → γ) : Prop where
  registersNothing : RegistersNothing exec
  other : ∀ a m, P a → J m.world → abs (exec (.other a) m).1.world = eff a (abs m.world) ∧
    J (exec (.other a) m).1.world
  sentinelmgr : ∀ a m, (∀ x, a ≠ .other x) → J m.world →
    abs (exec a m).1.world = abs m.world ∧ J (exec a m).1.world

def effectsOn {γ : Type} (eff : XAction N → γ → γ) (l : List (XAction N × Int32)) (g : γ) : γ :=
  l.foldl (fun g x => eff x.1 g) g

section
variable {exec : ActOf (XAction N) → XMach T n N → XMach T n N × Int} {γ : Type}
  {abs : World T n N → γ} {J : World T n N → Prop} {P : XAction N → Prop} {eff : XAction N → γ → γ}

theorem Tracks.calls (h : Tracks exec abs J P eff) (es : List (XEntry N)) :
    ∀ m : XMach T n N, J m.world → (∀ x ∈ others es, P x.1) →
      abs (callAll exec es m).2.world = effectsOn eff (others es) (abs m.world) := by
  induction es with
  | nil => exact fun m _ _ => rfl
  | cons e es ih =>
    intro m hJ hP
    have hw : (callEntry exec e m).1.world = (exec e.function m).1.world := Mach.store_world _ _ _
    show abs (callAll exec es (callEntry exec e m).1).2.world = _
    cases ha : e.function with
    | other a =>
      have hcons : others (e :: es) = (a, e.order) :: others es := by simp [others, ha]
      rw [hcons] at hP ⊢
      obtain ⟨hk, hJ'⟩ := h.other a m (hP (a, e.order) List.mem_cons_self) hJ
      rw [ha] at hw
      rw [ih _ (by rw [hw]; exact hJ') fun x hx => hP x (List.mem_cons_of_mem _ hx), hw, hk]
      rfl
    | sentinelmgrCommit | sentinelmgrUndo =>
      have hcons : others (e :: es) = others es := by simp [others, ha]
      rw [hcons] at hP ⊢
      obtain ⟨hk, hJ'⟩ := h.sentinelmgr e.function m (by simp [ha]) hJ
      rw [ih _ (by rw [hw]; exact hJ') hP, hw, hk]

end

theorem others_filter (l : List (XEntry N)) (k : Int32) :
    others (l.filter fun e => e.order = k) = (others l).filter fun x => x.2 = k := by
  induction l with
  | nil => rfl
  | cons e l ih =>
    cases ha : e.function with
    | other a =>
      have hcons : ∀ l, others (e :: l) = (a, e.order) :: others l := fun l => by simp [others, ha]
      by_cases hk : e.order = k
      · rw [List.filter_cons_of_pos (by simpa using hk), hcons, hcons,
          List.filter_cons_of_pos (by simpa using hk), ih]
      · rw [List.filter_cons_of_neg (by simpa using hk), hcons,
          List.filter_cons_of_neg (by simpa using hk), ih]
    | sentinelmgrCommit | sentinelmgrUndo =>
      have hcons : ∀ l, others (e :: l) = others l := fun l => by simp [others, ha]
      by_cases hk : e.order = k
      · rw [List.filter_cons_of_pos (by simpa using hk), hcons, hcons, ih]
      · rw [List.filter_cons_of_neg (by simpa using hk), hcons, ih]

/-- actions by rising order, with the orders 0 and 1 only -/
theorem rising_split {l : List (XAction N × Int32)} (hp : l.Pairwise fun a b => a.2 ≤ b.2)
    (h01 : ∀ x ∈ l, x.2 = 0 ∨ x.2 = 1) :
    l = (l.filter fun x => x.2 = 0) ++ l.filter fun x => x.2 = 1 := by
  induction l with
  | nil => rfl
  | cons x l ih =>
    obtain ⟨hx, hl⟩ := List.pairwise_cons.mp hp
    have ih := ih hl fun y hy => h01 y (List.mem_cons_of_mem _ hy)
    rcases h01 x List.mem_cons_self with h0 | h1
    · rw [List.filter_cons_of_pos (by simpa using h0),
        List.filter_cons_of_neg (by rw [h0]; decide), List.cons_append, ← ih]
    · have hnone : (l.filter fun y => y.2 = 0) = [] := by
        rw [List.filter_eq_nil_iff]
        intro y hy h
        have hle := hx y hy
        rw [h1, of_decide_eq_true h] at hle
        exact absurd hle (by decide)
      rw [hnone, List.nil_append] at ih
      rw [List.filter_cons_of_neg (by rw [h1]; decide),
        List.filter_cons_of_pos (by simpa using h1), hnone, List.nil_append, ← ih]

theorem others_inOrder {scan executed : List (XEntry N)} (h : InOrder scan executed)
    (h01 : ∀ x ∈ others scan, x.2 = 0 ∨ x.2 = 1) :
    others executed
      = ((others scan).filter fun x => x.2 = 0) ++ (others scan).filter fun x => x.2 = 1 := by
  have hp : (others executed).Pairwise fun a b => a.2 ≤ b.2 := by
    refine List.Pairwise.filterMap _ ?_ h.rising
    intro e e' hle x hx x' hx'
    cases he : e.function <;> cases he' : e'.function <;> simp [he, he'] at hx hx'
    rw [← hx, ← hx']
    exact hle
  have hmem : ∀ x ∈ others executed, x.2 = 0 ∨ x.2 = 1 := fun x hx =>
    h01 x ((h.once.filterMap _).mem_iff.mp hx)
  rw [rising_split hp hmem, ← others_filter, ← others_filter, h.stable, h.stable, others_filter,
    others_filter]

/-- actions that all have the order 0 are called as they are scanned -/
theorem others_inOrder_zero {scan executed : List (XEntry N)} (h : InOrder scan executed)
    (h0 : ∀ x ∈ others scan, x.2 = 0) : others executed = others scan := by
  have hz : ((others scan).filter fun x => x.2 = 0) = others scan :=
    List.filter_eq_self.mpr fun x hx => decide_eq_true (h0 x hx)
  have hone : ((others scan).filter fun x => x.2 = 1) = [] :=
    List.filter_eq_nil_iff.mpr fun x hx => by rw [h0 x hx]; decide
  rw [others_inOrder h fun x hx => Or.inl (h0 x hx), hz, hone, List.append_nil]

/-- **Abort.**  The generic undo action returns, and the undo actions act in reverse. -/
theorem Tracks.undo {exec : ActOf (XAction N) → XMach T n N → XMach T n N × Int} {γ : Type}
    {abs : World T n N → γ} {J : World T n N → Prop} {P : XAction N → Prop}
    {eff : XAction N → γ → γ} (h : Tracks exec abs J P eff) (m : XMach T n N) (hJ : J m.world)
    (hl : MgrOrdersOk m.txd.undoActionList.entries)
    (ho : ∀ x ∈ others m.txd.undoActionList.entries, x.2 = 0 ∧ P x.1) :
    ∃ fuel₀ o, (∀ fuel ≥ fuel₀, txGenericUndoAction exec fuel m = some o) ∧
      abs o.mach.world
        = effectsOn eff (others m.txd.undoActionList.entries).reverse (abs m.world) := by
  have hscan : others (undoScan m.txd) = (others m.txd.undoActionList.entries).reverse :=
    List.filterMap_reverse
  have h0 : ∀ x ∈ others (undoScan m.txd), x.2 = 0 := by
    intro x hx
    rw [hscan, List.mem_reverse] at hx
    exact (ho x hx).1
  obtain ⟨fuel₀, lf, hord, hrun⟩ := runLoop_start
    (fun e m => (callEntry_scan h.registersNothing e m).2) m
    fun e he => hl.nonneg (fun x hx => Or.inl (ho x hx).1) e (List.mem_reverse.mp he)
  refine ⟨fuel₀, ⟨lf.executed, firstError (callAll exec lf.executed m).1,
    undoTail (callAll exec lf.executed m).2 (firstError (callAll exec lf.executed m).1)⟩,
    fun fuel hfuel => ?_, ?_⟩
  · rw [txGenericUndoAction, hrun fuel hfuel, Option.map_some]
  · have hex : others lf.executed = (others m.txd.undoActionList.entries).reverse :=
      (others_inOrder_zero hord h0).trans hscan
    show abs (undoTail _ _).world = _
    rw [undoTail_world, h.calls _ m hJ ?_, hex]
    intro x hx
    rw [hex, List.mem_reverse] at hx
    exact (ho x hx).2

theorem exec_tracks : Tracks (exec : ActOf (XAction N) → XMach T n N → XMach T n N × Int)
    World.kernel (fun w => w.answers.faults = []) XAction.KernelOnly XAction.sys where
  registersNothing := exec_registersNothing
  other := fun a m ha hJ => exec_kernel ha m hJ
  sentinelmgr := by
    intro a m ha hJ
    obtain ⟨hk, hans⟩ := exec_sentinelmgr a ha m
    exact ⟨hk, by rw [hans]; exact hJ⟩

/-- **Commit.**  The generic commit action returns, and the commit actions act on the kernel as
registered, first those of order 0 and then those of order 1. -/
theorem commit_kernel (m : XMach T n N) (hf : m.world.answers.faults = [])
    (hl : MgrOrdersOk m.txd.commitActionList.entries)
    (ho : ∀ x ∈ others m.txd.commitActionList.entries, (x.2 = 0 ∨ x.2 = 1) ∧ x.1.KernelOnly) :
    ∃ fuel₀ o, (∀ fuel ≥ fuel₀, txGenericCommitAction exec fuel m = some o) ∧
      o.mach.world.kernel
        = effects (((others m.txd.commitActionList.entries).filter fun x => x.2 = 0) ++
            (others m.txd.commitActionList.entries).filter fun x => x.2 = 1) m.world.kernel := by
  have h01 : ∀ x ∈ others m.txd.commitActionList.entries, x.2 = 0 ∨ x.2 = 1 :=
    fun x hx => (ho x hx).1
  obtain ⟨fuel₀, lf, hord, hrun⟩ := runLoop_start
    (fun e m => (callEntry_scan exec_registersNothing e m).1) m (hl.nonneg h01)
  refine ⟨fuel₀, ⟨lf.executed, firstError (callAll exec lf.executed m).1,
    commitTail (callAll exec lf.executed m).2 (firstError (callAll exec lf.executed m).1)⟩,
    fun fuel hfuel => ?_, ?_⟩
  · rw [txGenericCommitAction, hrun fuel hfuel, Option.map_some]
  · show World.kernel (commitTail _ _).world = _
    rw [commitTail_world, exec_tracks.calls _ m hf ?_, others_inOrder hord h01]
    · rfl
    · exact fun x hx => (ho x ((hord.once.filterMap _).mem_iff.mp hx)).2

/-- an attempt is aborted whose calls registered the undo actions `l` -/
theorem Tracks.abort {γ : Type} {abs : World T n N → γ} {J : World T n N → Prop}
    {P : XAction N → Prop} {eff : XAction N → γ → γ} (ht : Tracks exec abs J P eff)
    {h : Handler (Instr n N) (XMach T n N)} (hh : Handles h) {m m' : XMach T n N}
    {cs : List Request} {out : Option AbortReason}
    (hrun : xRun h cs (xBegin m) = some (out, m')) {l : List (XAction N × Int32)}
    (hl : (view m').undos = (view (xBegin m)).undos ++ l) (hreg : ∀ x ∈ l, x.2 = 0 ∧ P x.1)
    (reason : AbortReason) (hJ : J (xAbort m' reason).world) :
    ∃ fuel₀ o, (∀ fuel ≥ fuel₀, txGenericUndoAction exec fuel (xAbort m' reason) = some o) ∧
      abs o.mach.world = effectsOn eff l.reverse (abs (xAbort m' reason).world) := by
  obtain ⟨hok0, hact⟩ := xBegin_lists m
  have hempty : (view (xBegin m)).undos = [] := (Prod.mk.inj hact).2
  rw [hempty, List.nil_append] at hl
  have hlists := (xAbort_lists m' reason).2
  have hl' : others (xAbort m' reason).txd.undoActionList.entries = l := by
    rw [hlists]
    exact hl
  obtain ⟨fuel₀, o, hfuel, hker⟩ := ht.undo (xAbort m' reason) hJ
    (by rw [hlists]; exact (xRun_listsOk hh hrun hok0).2)
    (by rw [hl']; exact hreg)
  rw [hl'] at hker
  exact ⟨fuel₀, o, hfuel, hker⟩

theorem abort_kernel {h : Handler (Instr n N) (XMach T n N)} (hh : Handles h)
    {m m' : XMach T n N} {cs : List Request} {out : Option AbortReason}
    (hrun : xRun h cs (xBegin m) = some (out, m')) {l : List (XAction N × Int32)}
    (hl : (view m').undos = (view (xBegin m)).undos ++ l)
    (hreg : ∀ x ∈ l, x.2 = 0 ∧ x.1.KernelOnly) (reason : AbortReason) :
    ∃ fuel₀ o, (∀ fuel ≥ fuel₀, txGenericUndoAction exec fuel (xAbort m' reason) = some o) ∧
      o.mach.world.kernel = effects l.reverse m'.world.kernel :=
  exec_tracks.abort hh hrun hl hreg reason rfl

end XCalls
