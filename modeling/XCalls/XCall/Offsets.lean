import XCalls.XCall.Contents

/-!
# What abort makes of the offsets of files

* `shortHandle`    a machine on which reads and writes may be short, and any system call may fail;
* `ownSeeks`       the seeks that a call makes on its own account succeed;
* `seekHandle`     the machine of the undo actions: their seeks do not fail, other system calls may;
* `Undoes`         the undo actions of a call set the offsets back;
* `abort_restores_offsets`   abort restores every offset.
-/

set_option linter.unusedSectionVars false

namespace XCalls
open Prog
variable {T : Type} [DecidableEq T] {n N : Nat}

/-! ## the machines -/

/-- an instruction as it is carried out when a transfer is cut short after `limit` bytes -/
def Instr.cut (limit : Nat) : ∀ {β : Type}, Instr n N β → Instr n N β
  | _, .libcRead fd nbyte => .libcRead fd (min nbyte limit)
  | _, .libcWrite fd buf => .libcWrite fd (buf.take limit)
  | _, i => i

def Instr.transfers : ∀ {β : Type}, Instr n N β → Bool
  | _, .libcRead _ _ => true
  | _, .libcWrite _ _ => true
  | _, _ => false

/-- reads and writes are cut short by the numbers of the list, and are not when it has ended -/
def shortHandle : Handler (Instr n N) (XMach T n N × List Nat) :=
  fun i s =>
    if i.transfers then
      match s.2 with
      | [] => (handle i s.1).map fun r => (r.1, (r.2, []))
      | limit :: limits => (handle (i.cut limit) s.1).map fun r => (r.1, (r.2, limits))
    else (handle i s.1).map fun r => (r.1, (r.2, s.2))

/-- the seek by which `x_lseek` reads the old offset and the one by which `x_write_ovr` goes back
succeed; one that the application has asked for may fail -/
def ownSeeks (c : XCall) : ∀ {β : Type}, Instr n N β → β → Bool
  | _, .libcLseek _ _ whence, r =>
    match c with
    | .write _ _ _ => r.isOk
    | .lseek _ _ asked => if asked = .seekCur then true else whence ≠ .seekCur || r.isOk
    | _ => true
  | _, _, _ => true

/-- the calls of one attempt, each with the limits for its transfers -/
def offsetRun : List (Request × List Nat) → XMach T n N → Option (Option AbortReason × XMach T n N)
  | [], m => some (none, m)
  | (c, limits) :: cs, m =>
    match run (only shortHandle (ownSeeks c.call)) (c.call.prog c.result)
        (withAnswers m c.answers, limits) with
    | none => none
    | some (.ok _, m') => offsetRun cs m'.1
    | some (.error (.abort reason), m') => some (some reason, m'.1)
    | some (.error .internalError, _) => none

/-- a seek that does not fail for a reason outside the model -/
def seekHandle : Handler (Instr n N) (XMach T n N)
  | _, .libcLseek fd offset whence, m =>
    some ((sysLseek m.world.kernel fd offset whence).1, { m with world := { m.world with
      kernel := (sysLseek m.world.kernel fd offset whence).2 } })
  | _, i, m => handle i m

/-- the call of an action on that machine -/
def execSeek : ActOf (XAction N) → XMach T n N → XMach T n N × Int
  | .other a, m =>
    match run seekHandle a.prog m with
    | some (.ok r, m') => (m', r)
    | _ => (m, 0)
  | a, m => exec a m

/-- the attempt is to be rolled back; the environment may let system calls of the undo actions
fail -/
def abortWith (m : XMach T n N) (reason : AbortReason) (faults : List (Option Errno)) :
    XMach T n N :=
  { m with
    txd := tmsystemAbortTransaction m.txd reason
    world := { m.world with answers := { m.world.answers with faults := faults } } }

/-! ## offsets -/

structure Offsets where
  fds : Nat → Option Nat
  files : Nat → OpenFile

def Kernel.offsets (k : Kernel) : Offsets := ⟨k.fds, k.files⟩

namespace Offsets

def move (o : Offsets) (d x : Nat) : Offsets :=
  { o with files := Function.update o.files d { o.files d with offset := x } }

/-- a seek to the position `pos`, where this is one -/
def seek (o : Offsets) (fd : Nat) (pos : OpenFile → Int) : Offsets :=
  match o.fds fd with
  | none => o
  | some d =>
    if 0 ≤ pos (o.files d) ∧ pos (o.files d) ≤ offMax then o.move d (pos (o.files d)).toNat else o

theorem move_move (o : Offsets) (d x y : Nat) : (o.move d x).move d y = o.move d y := by
  simp only [move, Function.update_self, Function.update_idem]

theorem move_self (o : Offsets) (d : Nat) : o.move d (o.files d).offset = o := by
  have h : Function.update o.files d (o.files d) = o.files := Function.update_eq_self _ _
  simp only [move]
  rw [h]

theorem move_offset (o : Offsets) (d x : Nat) : ((o.move d x).files d).offset = x := by
  simp only [move, Function.update_self]

/-- a seek back to the offset before a move -/
theorem seek_back {o : Offsets} {fd d x : Nat} {pos : OpenFile → Int} (hd : o.fds fd = some d)
    (hle : (o.files d).offset ≤ offMax)
    (hpos : pos { o.files d with offset := x } = (o.files d).offset) :
    (o.move d x).seek fd pos = o := by
  have hfile : (o.move d x).files d = { o.files d with offset := x } := by
    simp only [move, Function.update_self]
  have hfd : (o.move d x).fds fd = some d := hd
  unfold seek
  rw [hfd]
  simp only [hfile, hpos]
  rw [if_pos ⟨by omega, by omega⟩, Int.toNat_natCast, move_move, move_self]

end Offsets

def XAction.seeks : XAction N → Offsets → Offsets
  | .readUndo fd nbyte, o => o.seek fd fun f => f.offset + -nbyte
  | .lseekUndo fd oldPosition, o => o.seek fd fun _ => 0 + oldPosition
  | .writeSeqUndo fd nbyteNew, o => o.seek fd fun f => f.offset + -nbyteNew
  | .writeOvrUndo fd _ nbyteNew _, o => o.seek fd fun f => f.offset + -nbyteNew
  | _, o => o

def XAction.OnOffsets : XAction N → Prop
  | .readUndo _ _ => True
  | .lseekUndo _ _ => True
  | .writeSeqUndo _ _ => True
  | .writeOvrUndo _ _ _ _ => True
  | _ => False

theorem sysLseek_offsets (k : Kernel) (fd : Nat) (offset : Int) {whence : Whence}
    (hw : whence ≠ .seekEnd) :
    (sysLseek k fd offset whence).2.offsets = k.offsets.seek fd fun f =>
      (if whence = .seekCur then f.offset else 0 : Nat) + offset := by
  have hbase : ∀ f, k.base f whence = if whence = .seekCur then f.offset else 0 := by
    intro f
    cases whence with
    | seekSet => rfl
    | seekCur => rfl
    | seekEnd => exact absurd rfl hw
  unfold sysLseek Offsets.seek Kernel.offsets
  dsimp only
  cases hd : k.fds fd with
  | none => rfl
  | some d =>
    simp only [hbase]
    by_cases h0 :
      ((if whence = .seekCur then (k.files d).offset else 0 : Nat) : Int) + offset < 0
    · rw [if_pos h0, if_neg fun h => absurd h.1 (by omega)]
    · by_cases h1 : (offMax : Int) <
        ((if whence = .seekCur then (k.files d).offset else 0 : Nat) : Int) + offset
      · rw [if_neg h0, dif_pos h1, if_neg fun h => absurd h.2 (by omega)]
      · rw [if_neg h0, dif_neg h1]
        exact (if_pos ⟨by omega, by omega⟩).symm

/-! ## the undo actions -/

def undoOffsets : StepRel (Instr n N) Offsets
  | _, .libcLseek fd offset whence, _, o, o' => whence ≠ .seekEnd → o' = o.seek fd fun f =>
      (if whence = .seekCur then f.offset else 0 : Nat) + offset
  | _, .libcFtruncate _ _, _, o, o' => o' = o
  | _, .libcPwrite _ _ _, _, o, o' => o' = o
  | _, _, _, _, _ => True

section
variable {m m' : XMach T n N}

theorem syscall_offsets {β : Type} (m : XMach T n N) (f : Kernel → Except Errno β × Kernel)
    (h : ∀ k, (f k).2.offsets = k.offsets) :
    (syscall m f).2.world.kernel.offsets = m.world.kernel.offsets := by
  unfold syscall
  cases m.world.answers.faults.head?.join with
  | some e => rfl
  | none => exact h _

theorem sysFtruncate_offsets (k : Kernel) (fd : Nat) (length : Int) :
    (sysFtruncate k fd length).2.offsets = k.offsets := by
  unfold sysFtruncate
  cases k.fds fd with
  | none => rfl
  | some d =>
    dsimp only
    split
    · rfl
    · split <;> rfl

theorem sysPwrite_offsets (k : Kernel) (fd : Nat) (buf : List UInt8) (offset : Int) :
    (sysPwrite k fd buf offset).2.offsets = k.offsets := by
  unfold sysPwrite
  cases k.fds fd with
  | none => rfl
  | some d =>
    dsimp only
    split
    · rfl
    · split <;> rfl

theorem seekHandle_undoOffsets {β : Type} {i : Instr n N β} {b : β}
    (h : seekHandle i m = some (b, m')) :
    undoOffsets i b m.world.kernel.offsets m'.world.kernel.offsets := by
  cases i with
  | libcLseek fd offset whence =>
    cases h
    exact fun hw => sysLseek_offsets _ fd offset hw
  | libcFtruncate fd length =>
    have hs := syscall_offsets m _ fun k => sysFtruncate_offsets k fd length
    rw [Option.some.inj h] at hs
    exact hs
  | libcPwrite fd buf offset =>
    have hs := syscall_offsets m _ fun k => sysPwrite_offsets k fd buf offset
    rw [Option.some.inj h] at hs
    exact hs
  | _ => trivial

theorem wp_seeks {a : XAction N} (ha : a.OnOffsets) (o : Offsets) :
    wp undoOffsets (a.prog : XProg n N Int) (fun _ o' => o' = a.seeks o) o := by
  cases a with
  | readUndo fd nbyte =>
    intro b o' h
    have ho := h (by decide)
    cases b with
    | error e => exact ho
    | ok pos => exact ho
  | lseekUndo fd oldPosition =>
    intro b o' h
    have ho := h (by decide)
    cases b with
    | error e => exact ho
    | ok pos => exact ho
  | writeSeqUndo fd nbyteNew =>
    intro b o' h
    have ho := h (by decide)
    cases b with
    | error e => exact ho
    | ok pos =>
      intro b o'' h'
      cases b with
      | error e => exact h'.trans ho
      | ok _ => exact h'.trans ho
  | writeOvrUndo fd buf nbyteNew nbyteOld =>
    simp only [XAction.prog, xWriteOvrUndo, call_bind, wp_op]
    intro b o' h
    have ho := h (by decide)
    cases b with
    | error e => exact ho
    | ok pos =>
      cases buf with
      | none => exact ho
      | some data =>
        by_cases hcut : nbyteOld < nbyteNew
        · simp only [hcut, if_true, wp_op]
          intro cut o₂ h₂
          have ho₂ := h₂.trans ho
          cases cut with
          | error e => exact ho₂
          | ok _ =>
            intro b o₃ h₃
            cases b with
            | error e => exact h₃.trans ho₂
            | ok _ => exact h₃.trans ho₂
        · simp only [hcut, if_false, pure_eq, ret_bind, wp_op]
          intro b o₂ h₂
          cases b with
          | error e => exact h₂.trans ho
          | ok _ => exact h₂.trans ho
  | _ => exact ha.elim

theorem seekHandle_inAction {β : Type} (i : Instr n N β) (hi : i.InAction) (m : XMach T n N) :
    ∃ b m', seekHandle i m = some (b, m') ∧ m'.txd = m.txd := by
  cases i with
  | libcLseek fd offset whence => exact ⟨_, _, rfl, rfl⟩
  | _ => exact handle_inAction _ hi m

theorem run_actionSeek (a : XAction N) (m : XMach T n N) :
    ∃ r m', run seekHandle a.prog m = some (.ok r, m') ∧ m'.txd = m.txd := by
  refine run_every (J := fun s s' : XMach T n N => s'.txd = s.txd) (fun _ => rfl) ?_
    seekHandle_inAction (every_prog a) m
  intro s s' s'' h1 h2
  exact h2.trans h1

theorem execSeek_other (a : XAction N) (m : XMach T n N) :
    run seekHandle a.prog m = some (.ok (execSeek (.other a) m).2, (execSeek (.other a) m).1) ∧
      (execSeek (.other a) m).1.txd = m.txd := by
  obtain ⟨r, m', h, htxd⟩ := run_actionSeek a m
  simp only [execSeek, h]
  exact ⟨trivial, htxd⟩

theorem execSeek_tracks :
    Tracks (execSeek : ActOf (XAction N) → XMach T n N → XMach T n N × Int)
      (fun w => w.kernel.offsets) (fun _ => True) XAction.OnOffsets XAction.seeks where
  registersNothing := by
    intro a m
    cases a with
    | sentinelmgrCommit => exact exec_registersNothing .sentinelmgrCommit m
    | sentinelmgrUndo => exact exec_registersNothing .sentinelmgrUndo m
    | other a =>
      rw [(execSeek_other a m).2]
      exact ⟨rfl, rfl⟩
  other := by
    intro a m ha _
    have hR : ∀ {β : Type} (i : Instr n N β) (b : β) (s s' : XMach T n N), True →
        seekHandle i s = some (b, s') →
        undoOffsets i b s.world.kernel.offsets s'.world.kernel.offsets ∧ True :=
      fun i b s s' _ hs => ⟨seekHandle_undoOffsets hs, trivial⟩
    exact wp_run hR trivial (wp_seeks ha _) (execSeek_other a m).1
  sentinelmgr := by
    intro a m ha _
    cases a with
    | sentinelmgrCommit =>
      exact ⟨congrArg Kernel.offsets (exec_sentinelmgr .sentinelmgrCommit ha m).1, trivial⟩
    | sentinelmgrUndo =>
      exact ⟨congrArg Kernel.offsets (exec_sentinelmgr .sentinelmgrUndo ha m).1, trivial⟩
    | other a => exact absurd rfl (ha a)

end

/-! ## the calls -/

structure OffsetView (N : Nat) where
  offsets : Offsets
  xactstate : XactState
  undos : List (XAction N × Int32)

def offsetView (m : XMach T n N) : OffsetView N :=
  ⟨m.world.kernel.offsets, m.world.xactstate, others m.txd.undoActionList.entries⟩

/-- a system call on the descriptor `fd` that may move its offset, by the value that it returns -/
def OffsetView.moves (v v' : OffsetView N) (fd : Nat) (P : OpenFile → Nat → Prop) : Prop :=
  ∃ d x, v.offsets.fds fd = some d ∧ P (v.offsets.files d) x ∧
    v' = { v with offsets := v.offsets.move d x }

/-- the steps of a call; a system call may fail -/
def offsetStep : StepRel (Instr n N) (OffsetView N)
  | _, .getXactstate, b, v, v' => b = v.xactstate ∧ v' = v
  | _, .registerUndoAction a _ order, _, v, v' => v' = { v with undos := v.undos ++ [(a, order)] }
  | _, .libcRead fd _, b, v, v' =>
    match b with
    | .error _ => v' = v
    | .ok data => v.moves v' fd fun f x => x = f.offset + data.length
  | _, .libcWrite fd _, b, v, v' =>
    match b with
    | .error _ => v' = v
    | .ok nbyte => v.moves v' fd fun f x => x = f.offset + nbyte
  | _, .libcLseek fd offset whence, b, v, v' =>
    match b with
    | .error _ => v' = v
    | .ok pos => v.moves v' fd fun f x => pos = (x : Int) ∧
        (whence = .seekCur → pos = f.offset + offset)
  | _, .linearMalloc _, _, v, v' => v' = v
  | _, .linearFree _, _, v, v' => v' = v
  | _, .store _ _, _, v, v' => v' = v
  | _, .tryacquire _ _, _, v, v' => v' = v
  | _, .lockFd _, _, v, v' => v' = v
  | _, .unlockFd _, _, v, v' => v' = v
  | _, .lookupFd2koa _, _, v, v' => v' = v
  | _, .getSentinel _, _, v, v' => v' = v
  | _, _, _, _, _ => True

section
variable {m m' : XMach T n N}

theorem syscall_offsetView {β : Type} {f : Kernel → Except Errno β × Kernel} {b : Except Errno β}
    (h : syscall m f = (b, m')) :
    offsetView m' = { offsetView m with offsets := m'.world.kernel.offsets } ∧
      ((∃ e, b = .error e ∧ m'.world.kernel = m.world.kernel) ∨
        b = (f m.world.kernel).1 ∧ m'.world.kernel = (f m.world.kernel).2) := by
  rcases syscall_cases h with ⟨e, -, rfl, rfl⟩ | ⟨-, rfl, rfl⟩
  · exact ⟨rfl, .inl ⟨e, rfl, rfl⟩⟩
  · exact ⟨rfl, .inr ⟨rfl, rfl⟩⟩

theorem offsetView_of_kernel (hv : offsetView m' = { offsetView m with
    offsets := m'.world.kernel.offsets }) (hk : m'.world.kernel = m.world.kernel) :
    offsetView m' = offsetView m := by
  rw [hv, hk]
  rfl

/-- a system call that moves the offset of a descriptor when it succeeds, and nothing else -/
theorem syscall_moves {β : Type} {f : Kernel → Except Errno β × Kernel} {b : Except Errno β}
    {fd : Nat} {P : β → OpenFile → Nat → Prop}
    (herr : ∀ k e, (f k).1 = .error e → (f k).2 = k)
    (hok : ∀ k a k', f k = (.ok a, k') → ∃ d x, k.fds fd = some d ∧ P a (k.files d) x ∧
      k'.offsets = k.offsets.move d x)
    (h : syscall m f = (b, m')) :
    match b with
    | .error _ => offsetView m' = offsetView m
    | .ok a => (offsetView m).moves (offsetView m') fd (P a) := by
  obtain ⟨hv, ⟨e, rfl, hk⟩ | ⟨hb, hk⟩⟩ := syscall_offsetView h
  · exact offsetView_of_kernel hv hk
  · cases b with
    | error e => exact offsetView_of_kernel hv (hk.trans (herr _ e hb.symm))
    | ok a =>
      obtain ⟨d, x, hd, hP, hmove⟩ := hok m.world.kernel a _ (Prod.ext hb.symm rfl)
      refine ⟨d, x, hd, hP, ?_⟩
      rw [hv, hk, hmove]
      rfl

theorem sysRead_error {k : Kernel} {fd nbyte : Nat} {e : Errno}
    (h : (sysRead k fd nbyte).1 = .error e) : (sysRead k fd nbyte).2 = k := by
  unfold sysRead at h ⊢
  split
  · rfl
  · rename_i hd
    rw [hd] at h
    dsimp only at h ⊢
    split
    · rfl
    · rw [if_neg ‹_›] at h
      cases h

theorem error_of_checks {α : Type} {k : Kernel} {c₁ c₂ : Prop} [Decidable c₁] [Decidable c₂]
    {e₁ e₂ e : Errno} {a : α} {k' : ¬ c₂ → Kernel}
    (h : (if c₁ then (Except.error e₁, k)
      else if hc : c₂ then (.error e₂, k) else (.ok a, k' hc)).1 = .error e) :
    (if c₁ then (Except.error e₁, k)
      else if hc : c₂ then (.error e₂, k) else (.ok a, k' hc)).2 = k := by
  split
  · rfl
  · rw [if_neg ‹_›] at h
    split
    · rfl
    · rw [dif_neg ‹_›] at h
      cases h

theorem sysWrite_error {k : Kernel} {fd : Nat} {buf : List UInt8} {e : Errno}
    (h : (sysWrite k fd buf).1 = .error e) : (sysWrite k fd buf).2 = k := by
  unfold sysWrite at h ⊢
  split
  · rfl
  · rename_i hd
    rw [hd] at h
    exact error_of_checks h

theorem sysLseek_error {k : Kernel} {fd : Nat} {offset : Int} {whence : Whence} {e : Errno}
    (h : (sysLseek k fd offset whence).1 = .error e) : (sysLseek k fd offset whence).2 = k := by
  unfold sysLseek at h ⊢
  split
  · rfl
  · rename_i hd
    rw [hd] at h
    exact error_of_checks h

theorem handle_read_moves {fd k nbyte : Nat} {b : Except Errno (List UInt8)}
    (h : handle (.libcRead fd k : Instr n N _) m = some (b, m')) :
    offsetStep (.libcRead fd nbyte : Instr n N _) b (offsetView m) (offsetView m') := by
  have hmoves := syscall_moves (P := fun data f x => x = f.offset + data.length)
    (fun _ _ => sysRead_error) (by
      intro k a k' hr
      obtain ⟨d, hd, rfl, rfl⟩ := sysRead_ok hr
      exact ⟨d, _, hd, rfl, rfl⟩) (Option.some.inj h)
  cases b with
  | error e => exact hmoves
  | ok data => exact hmoves

theorem handle_write_moves {fd : Nat} {buf buf' : List UInt8} {b : Except Errno Nat}
    (h : handle (.libcWrite fd buf' : Instr n N _) m = some (b, m')) :
    offsetStep (.libcWrite fd buf : Instr n N _) b (offsetView m) (offsetView m') := by
  have hmoves := syscall_moves (P := fun (nbyte : Nat) f x => x = f.offset + nbyte)
    (fun _ _ => sysWrite_error) (by
      intro k a k' hw
      obtain ⟨d, hc, ho, hd, rfl, rfl⟩ := sysWrite_ok hw
      exact ⟨d, _, hd, rfl, rfl⟩) (Option.some.inj h)
  cases b with
  | error e => exact hmoves
  | ok ret => exact hmoves

theorem handle_lseek_moves {fd : Nat} {offset : Int} {whence : Whence} {b : Except Errno Int}
    (h : handle (.libcLseek fd offset whence : Instr n N _) m = some (b, m')) :
    offsetStep (.libcLseek fd offset whence : Instr n N _) b (offsetView m) (offsetView m') := by
  have hmoves := syscall_moves
    (P := fun (pos : Int) f x => pos = (x : Int) ∧ (whence = .seekCur → pos = f.offset + offset))
    (fun _ _ => sysLseek_error) (by
      intro k a k' hs
      obtain ⟨d, x, hx, hd, hpos, hbase, rfl⟩ := sysLseek_ok hs
      refine ⟨d, x, hd, ⟨hpos, ?_⟩, rfl⟩
      intro hw
      rw [hw] at hbase
      exact hbase) (Option.some.inj h)
  cases b with
  | error e => exact hmoves
  | ok pos => exact hmoves

theorem handle_offsetStep {β : Type} {i : Instr n N β} {b : β} (h : handle i m = some (b, m')) :
    offsetStep i b (offsetView m) (offsetView m') := by
  cases i with
  | libcRead fd nbyte => exact handle_read_moves h
  | libcWrite fd buf => exact handle_write_moves h
  | libcLseek fd offset whence => exact handle_lseek_moves h
  | getXactstate =>
    cases h
    exact ⟨rfl, rfl⟩
  | lockFd | unlockFd | linearFree | lookupFd2koa =>
    cases h
    rfl
  | registerUndoAction a result order =>
    cases h
    simp [offsetStep, offsetView, txRegisterUndoAction_eq, others]
  | linearMalloc size =>
    simp only [handle] at h
    split at h
    all_goals
      cases h
      rfl
  | store p v =>
    cases h
    cases p <;> rfl
  | tryacquire s flags =>
    simp only [handle, Option.map_eq_some_iff] at h
    obtain ⟨⟨r, mgr, txd⟩, h1, h2⟩ := h
    cases h2
    obtain ⟨_, hu⟩ := Prod.mk.inj (actions_tryacquire h1)
    show offsetView _ = offsetView m
    simp only [offsetView, hu]
  | getSentinel k =>
    simp only [handle, Option.map_eq_some_iff] at h
    obtain ⟨s, -, h2⟩ := h
    cases h2
    rfl
  | _ => trivial

theorem shortHandle_offsetStep {β : Type} {i : Instr n N β} {b : β} {s s' : XMach T n N × List Nat}
    (h : shortHandle i s = some (b, s')) : offsetStep i b (offsetView s.1) (offsetView s'.1) := by
  unfold shortHandle at h
  split at h
  · split at h
    · obtain ⟨⟨b', m'⟩, h1, h2⟩ := Option.map_eq_some_iff.mp h
      cases h2
      exact handle_offsetStep h1
    · obtain ⟨⟨b', m'⟩, h1, h2⟩ := Option.map_eq_some_iff.mp h
      cases h2
      cases i with
      | libcRead fd nbyte => exact handle_read_moves h1
      | libcWrite fd buf => exact handle_write_moves h1
      | _ => exact handle_offsetStep h1
  · obtain ⟨⟨b', m'⟩, h1, h2⟩ := Option.map_eq_some_iff.mp h
    cases h2
    exact handle_offsetStep h1

end

def ownStep (c : XCall) : StepRel (Instr n N) (OffsetView N) :=
  fun i b v v' => offsetStep i b v v' ∧ ownSeeks c i b = true

theorem run_offsetView {c : XCall} {α : Type} {p : XProg n N α}
    {Q : Except Stop α → OffsetView N → Prop} {s s' : XMach T n N × List Nat} {r : Except Stop α}
    (hwp : wp (ownStep c) p Q (offsetView s.1))
    (h : run (only shortHandle (ownSeeks c)) p s = some (r, s')) : Q r (offsetView s'.1) := by
  have hR : ∀ {β : Type} (i : Instr n N β) (b : β) (s s' : XMach T n N × List Nat), True →
      only shortHandle (ownSeeks c) i s = some (b, s') →
      ownStep c i b (offsetView s.1) (offsetView s'.1) ∧ True := by
    intro β i b s s' _ hs
    obtain ⟨h1, h2⟩ := only_eq_some.mp hs
    exact ⟨⟨shortHandle_offsetStep h1, h2⟩, trivial⟩
  exact (wp_run hR trivial hwp h).1

structure Undoes (v v' : OffsetView N) : Prop where
  xactstate : v'.xactstate = v.xactstate
  back : ∃ l, v'.undos = v.undos ++ l ∧ (∀ x ∈ l, x.2 = 0 ∧ x.1.OnOffsets) ∧
    effectsOn XAction.seeks l.reverse v'.offsets = v.offsets

theorem Undoes.refl (v : OffsetView N) : Undoes v v :=
  ⟨rfl, [], (List.append_nil _).symm, by simp, rfl⟩

theorem Undoes.trans {v v' v'' : OffsetView N} (h : Undoes v v') (h' : Undoes v' v'') :
    Undoes v v'' := by
  obtain ⟨l, hl, hreg, hback⟩ := h.back
  obtain ⟨l', hl', hreg', hback'⟩ := h'.back
  refine ⟨h'.xactstate.trans h.xactstate, l ++ l', by rw [hl', hl, List.append_assoc], ?_, ?_⟩
  · intro x hx
    rcases List.mem_append.mp hx with hx | hx
    · exact hreg x hx
    · exact hreg' x hx
  · rw [List.reverse_append]
    show List.foldl _ _ _ = _
    rw [List.foldl_append]
    show effectsOn XAction.seeks l.reverse (effectsOn XAction.seeks l'.reverse v''.offsets) = _
    rw [hback', hback]

theorem Undoes.one {v : OffsetView N} {a : XAction N} {fd d x : Nat} (pos : OpenFile → Int)
    (ha : a.OnOffsets) (hseek : ∀ o, a.seeks o = o.seek fd pos)
    (hd : v.offsets.fds fd = some d) (hle : (v.offsets.files d).offset ≤ offMax)
    (hpos : pos { v.offsets.files d with offset := x } = (v.offsets.files d).offset) :
    Undoes v { v with
      offsets := v.offsets.move d x
      undos := v.undos ++ [(a, regularActionOrder)] } := by
  refine ⟨rfl, [(a, regularActionOrder)], rfl, ?_, ?_⟩
  · intro y hy
    rw [List.mem_singleton.mp hy]
    exact ⟨rfl, ha⟩
  · show a.seeks (v.offsets.move d x) = v.offsets
    rw [hseek]
    exact Offsets.seek_back hd hle hpos

section
variable {c : XCall} {α : Type} {v : OffsetView N}

theorem acquireFd_offsets (fd : Nat) (v : OffsetView N) :
    wp (ownStep c) (acquireFd fd : XProg n N Bool) (fun _ v' => v' = v) v := by
  simp only [acquireFd, call_bind, wp_op]
  rintro _ _ ⟨rfl, -⟩ koa v ⟨rfl, -⟩
  cases koa with
  | none =>
    rintro _ _ ⟨rfl, -⟩
    rfl
  | some koa =>
    rintro s _ ⟨rfl, -⟩ r _ ⟨rfl, -⟩ _ v ⟨rfl, -⟩
    dsimp only
    split <;> rfl

theorem wp_acquireFd_offsets {fd : Nat} {f : Bool → XProg n N α}
    {Q : Except Stop α → OffsetView N → Prop} (he : ∀ e, Q (.error e) v)
    (hf : ∀ b, wp (ownStep c) (f b) Q v) : wp (ownStep c) (acquireFd fd >>= f) Q v := by
  refine wp_bind (wp_mono ?_ (acquireFd_offsets fd v))
  intro r v' hv
  subst hv
  cases r with
  | error e => exact he e
  | ok b => exact hf b

theorem wp_finish_offsets {result : Option Nat} {r : Int} {e : Errno}
    {Q : Except Stop Int → OffsetView N → Prop} (h : Q (.ok r) v) :
    wp (ownStep c) (finish result r e : XProg n N Int) Q v := by
  rintro _ _ ⟨rfl, -⟩
  exact h

theorem wp_free_offsets {size : UInt32} {p : XProg n N α} {Q : Except Stop α → OffsetView N → Prop}
    (h : wp (ownStep c) p Q v) : wp (ownStep c) (call (.linearFree size) >>= fun _ => p) Q v := by
  rintro _ _ ⟨rfl, -⟩
  exact h

theorem xRead_offsets (fd nbyte : Nat) (result : Option Nat) (hv : v.xactstate = .retryable)
    (hle : ∀ d, (v.offsets.files d).offset ≤ offMax) :
    wp (ownStep c) ((XCall.read fd nbyte).prog result : XProg n N Int)
      (fun _ v' => Undoes v v') v := by
  simp only [XCall.prog, xRead, call_bind, op_bind, wp_op]
  rintro _ v ⟨⟨rfl, rfl⟩, -⟩
  rw [hv]
  refine wp_bind (wp_acquireFd_offsets (fun _ => Undoes.refl v) fun b => ?_)
  cases b with
  | false =>
    refine wp_bind (wp_finish_offsets ?_)
    exact Undoes.refl v
  | true =>
    rintro b v ⟨rfl, -⟩
    cases b with
    | false =>
      refine wp_bind (wp_finish_offsets ?_)
      exact Undoes.refl v
    | true =>
      rintro r v' ⟨hr, -⟩
      cases r with
      | error e =>
        obtain rfl : v' = v := hr
        refine wp_free_offsets (wp_bind (wp_finish_offsets ?_))
        exact Undoes.refl v'
      | ok data =>
        obtain ⟨d, x, hd, rfl, rfl⟩ := hr
        rintro _ _ ⟨rfl, -⟩
        refine wp_bind (wp_finish_offsets ?_)
        refine Undoes.one (fun f => f.offset + -data.length) trivial (fun _ => rfl) hd (hle d) ?_
        dsimp only
        omega

theorem xLseek_offsets (fd : Nat) (offset : Int) (whence : Whence) (result : Option Nat)
    (hv : v.xactstate = .retryable) (hle : ∀ d, (v.offsets.files d).offset ≤ offMax) :
    wp (ownStep (.lseek fd offset whence)) (xLseek fd offset whence result : XProg n N Int)
      (fun _ v' => Undoes v v') v := by
  simp only [xLseek, call_bind, wp_op]
  rintro _ v ⟨⟨rfl, rfl⟩, -⟩
  rw [hv]
  refine wp_acquireFd_offsets (fun _ => Undoes.refl v) fun b => ?_
  cases b with
  | false => exact wp_finish_offsets (Undoes.refl v)
  | true =>
    rintro b v ⟨rfl, -⟩
    cases b with
    | false => exact wp_finish_offsets (Undoes.refl v)
    | true =>
      simp only [Bool.not_true, Bool.false_eq_true, if_false]
      split
      · rename_i hw
        rintro r v' ⟨hr, -⟩
        cases r with
        | error e =>
          obtain rfl : v' = v := hr
          exact wp_free_offsets (wp_finish_offsets (Undoes.refl v'))
        | ok pos =>
          obtain ⟨d, x, hd, ⟨-, hpos⟩, rfl⟩ := hr
          rintro _ _ ⟨rfl, -⟩
          refine wp_finish_offsets ?_
          refine Undoes.one (fun _ => 0 + (pos - offset)) trivial (fun _ => rfl) hd (hle d) ?_
          have hpos := hpos hw
          omega
      · rename_i hw
        -- the old offset is asked for by a seek by nothing
        rintro r v' ⟨hr, hown⟩
        cases r with
        | error e =>
          simp only [ownSeeks, if_neg hw] at hown
          cases hown
        | ok old =>
          obtain ⟨d, x, hd, ⟨hx, hold⟩, rfl⟩ := hr
          have hold := hold rfl
          obtain rfl : x = (v.offsets.files d).offset := by omega
          rw [Offsets.move_self]
          rintro r v' ⟨hr, -⟩
          cases r with
          | error e =>
            obtain rfl : v' = v := hr
            exact wp_free_offsets (wp_finish_offsets (Undoes.refl v'))
          | ok pos =>
            obtain ⟨d', y, hd', -, rfl⟩ := hr
            rintro _ _ ⟨rfl, -⟩
            refine wp_finish_offsets ?_
            obtain rfl : d = d' := Option.some.inj (hd.symm.trans hd')
            refine Undoes.one (fun _ => 0 + old) trivial (fun _ => rfl) hd (hle d) ?_
            omega

/-- the write of `x_write_ovr` from the offset before the call -/
theorem wp_write_offsets (fd : Nat) (buf : List UInt8) (result : Option Nat)
    (oldData : Option (List UInt8)) (nbyteOld : Int)
    (hle : ∀ d, (v.offsets.files d).offset ≤ offMax) :
    wp (ownStep c) (call (.libcWrite fd buf) >>= fun
        | .error e => do
          if oldData.isSome then call (.linearFree (UInt32.ofNat buf.length))
          call (.linearFree writeArgsSize)
          finish result (-1) e
        | .ok r => do
          call (.registerUndoAction (.writeOvrUndo fd oldData r nbyteOld) result regularActionOrder)
          finish result r 0 : XProg n N Int)
      (fun _ v' => Undoes v v') v := by
  rintro r v' ⟨hr, -⟩
  cases r with
  | error e =>
    obtain rfl : v' = v := hr
    dsimp only
    split
    · exact wp_free_offsets (wp_free_offsets (wp_finish_offsets (Undoes.refl v')))
    · exact wp_free_offsets (wp_finish_offsets (Undoes.refl v'))
  | ok nbyte =>
    obtain ⟨d, x, hd, rfl, rfl⟩ := hr
    rintro _ _ ⟨rfl, -⟩
    refine wp_finish_offsets ?_
    refine Undoes.one (fun f => f.offset + -nbyte) trivial (fun _ => rfl) hd (hle d) ?_
    dsimp only
    omega

/-- `x_write_ovr` goes back over the bytes that it has read -/
theorem xWriteOvr_offsets (fd : Nat) (buf old : List UInt8) (result : Option Nat)
    (hle : ∀ d, (v.offsets.files d).offset ≤ offMax) {v' : OffsetView N}
    (hread : v.moves v' fd fun f x => x = f.offset + old.length) :
    wp (ownStep (.write fd buf .ovrSave)) (xWriteOvr fd buf result (some old) : XProg n N Int)
      (fun _ v' => Undoes v v') v' := by
  obtain ⟨d, x, hd, rfl, rfl⟩ := hread
  simp only [xWriteOvr, Option.getD_some]
  split
  · rintro r v' ⟨hr, hown⟩
    cases r with
    | error e => cases hown
    | ok pos =>
      obtain ⟨d', y, hd', ⟨hy, hpos⟩, rfl⟩ := hr
      obtain rfl : d = d' := Option.some.inj (hd.symm.trans hd')
      have hpos := hpos rfl
      dsimp only at hpos hy ⊢
      rw [Offsets.move_offset] at hpos
      obtain rfl : y = (v.offsets.files d).offset := by omega
      rw [Offsets.move_move, Offsets.move_self]
      exact wp_write_offsets fd buf result (some old) _ hle
  · rename_i h0
    rw [show old.length = 0 by omega, Nat.add_zero, Offsets.move_self]
    exact wp_write_offsets fd buf result (some old) _ hle

theorem xWrite_offsets (fd : Nat) (buf : List UInt8) (flags : WriteFlags) (result : Option Nat)
    (hv : v.xactstate = .retryable) (hle : ∀ d, (v.offsets.files d).offset ≤ offMax) :
    wp (ownStep (.write fd buf flags)) (xWrite fd buf result flags : XProg n N Int)
      (fun _ v' => Undoes v v') v := by
  simp only [xWrite, call_bind, wp_op]
  rintro _ v ⟨⟨rfl, rfl⟩, -⟩
  rw [hv]
  refine wp_acquireFd_offsets (fun _ => Undoes.refl v) fun b => ?_
  cases b with
  | false => exact wp_finish_offsets (Undoes.refl v)
  | true =>
    rintro b v ⟨rfl, -⟩
    cases b with
    | false => exact wp_finish_offsets (Undoes.refl v)
    | true =>
      cases flags with
      | seq =>
        rintro r v' ⟨hr, -⟩
        cases r with
        | error e =>
          obtain rfl : v' = v := hr
          exact wp_free_offsets (wp_finish_offsets (Undoes.refl v'))
        | ok nbyte =>
          obtain ⟨d, x, hd, rfl, rfl⟩ := hr
          rintro _ _ ⟨rfl, -⟩
          refine wp_finish_offsets ?_
          refine Undoes.one (fun f => f.offset + -nbyte) trivial (fun _ => rfl) hd (hle d) ?_
          dsimp only
          omega
      | ovrIgnore => exact wp_write_offsets fd buf result none _ hle
      | ovrSave =>
        rintro b v ⟨rfl, -⟩
        cases b with
        | false => exact wp_free_offsets (wp_finish_offsets (Undoes.refl v))
        | true =>
          rintro r v' ⟨hr, -⟩
          cases r with
          | error e =>
            obtain rfl : v' = v := hr
            exact wp_free_offsets (wp_free_offsets (wp_finish_offsets (Undoes.refl v')))
          | ok old => exact xWriteOvr_offsets fd buf old result hle hr

/-- **One call**: its undo actions set back the offsets that it has moved. -/
theorem offsets_call (h : c.OnContents) (result : Option Nat) (hv : v.xactstate = .retryable)
    (hle : ∀ d, (v.offsets.files d).offset ≤ offMax) :
    wp (ownStep c) (c.prog result : XProg n N Int) (fun _ v' => Undoes v v') v := by
  cases c with
  | read fd nbyte => exact xRead_offsets fd nbyte result hv hle
  | lseek fd offset whence => exact xLseek_offsets fd offset whence result hv hle
  | write fd buf flags => exact xWrite_offsets fd buf flags result hv hle
  | _ => exact h.elim

end

/-! ## sequences of calls -/

theorem shortHandle_listsOk {β : Type} (i : Instr n N β) (b : β) (s s' : XMach T n N × List Nat)
    (h : shortHandle i s = some (b, s')) (hs : ListsOk s.1.txd) : ListsOk s'.1.txd := by
  unfold shortHandle at h
  split at h
  · split at h
    all_goals
      obtain ⟨⟨b', m'⟩, h1, h2⟩ := Option.map_eq_some_iff.mp h
      cases h2
      exact handle_listsOk _ _ _ _ h1 hs
  · obtain ⟨⟨b', m'⟩, h1, h2⟩ := Option.map_eq_some_iff.mp h
    cases h2
    exact handle_listsOk _ _ _ _ h1 hs

/-- **Every sequence of calls**: the undo actions set the offsets back. -/
theorem offsetRun_undoes {cs : List (Request × List Nat)} (hc : ∀ c ∈ cs, c.1.call.OnContents) :
    ∀ {m m' : XMach T n N} {out : Option AbortReason}, offsetRun cs m = some (out, m') →
      m.world.xactstate = .retryable → ListsOk m.txd →
      Undoes (offsetView m) (offsetView m') ∧ ListsOk m'.txd := by
  induction cs with
  | nil =>
    intro m m' out h _ hl
    cases h
    exact ⟨Undoes.refl _, hl⟩
  | cons c cs ih =>
    intro m m' out h hx hl
    obtain ⟨c, limits⟩ := c
    have hcall : ∀ {r : Except Stop Int} {s : XMach T n N × List Nat},
        run (only shortHandle (ownSeeks c.call)) (c.call.prog c.result)
          (withAnswers m c.answers, limits) = some (r, s) →
        Undoes (offsetView m) (offsetView s.1) ∧ ListsOk s.1.txd := by
      intro r s h1
      constructor
      · have hle : ∀ d, ((offsetView m).offsets.files d).offset ≤ offMax := m.world.kernel.offset_le
        have hwp : wp (ownStep c.call) (c.call.prog c.result : XProg n N Int)
            (fun _ v' => Undoes (offsetView m) v') (offsetView (withAnswers m c.answers)) :=
          offsets_call (hc _ List.mem_cons_self) c.result hx hle
        exact run_offsetView hwp h1
      · refine run_inv (J := fun s : XMach T n N × List Nat => ListsOk s.1.txd) ?_ h1 hl
        exact fun i b s s' hs => shortHandle_listsOk i b s s' (only_eq_some.mp hs).1
    unfold offsetRun at h
    split at h
    · cases h
    · rename_i s h1
      obtain ⟨hu, hl'⟩ := hcall h1
      obtain ⟨hu', hl''⟩ := ih (fun d hd => hc d (List.mem_cons_of_mem _ hd)) h
        (hu.xactstate.trans hx) hl'
      exact ⟨hu.trans hu', hl''⟩
    · rename_i reason s h1
      cases h
      exact hcall h1
    · cases h

/-- **Abort restores every offset.**  Whatever calls of `x_read`, `x_lseek` and `x_write_*` a
retryable transaction makes, with transfers that are short and system calls that fail, until it is
aborted for any reason: the generic undo action returns, and every open file description has the
offset that it had when the transaction began. -/
theorem abort_restores_offsets (m : XMach T n N) (cs : List (Request × List Nat))
    (hc : ∀ c ∈ cs, c.1.call.OnContents) (out : Option AbortReason) (m' : XMach T n N)
    (hrun : offsetRun cs (xBegin m) = some (out, m')) (reason : AbortReason)
    (faults : List (Option Errno)) :
    ∃ fuel₀ o,
      (∀ fuel ≥ fuel₀, txGenericUndoAction execSeek fuel (abortWith m' reason faults) = some o) ∧
        o.mach.world.kernel.fds = m.world.kernel.fds ∧
        o.mach.world.kernel.files = m.world.kernel.files := by
  obtain ⟨hok, hact⟩ := xBegin_lists m
  obtain ⟨hundoes, hlists⟩ := offsetRun_undoes hc hrun rfl hok
  obtain ⟨l, hl, hreg, hback⟩ := hundoes.back
  have hempty : (offsetView (xBegin m)).undos = [] := (Prod.mk.inj hact).2
  rw [hempty, List.nil_append] at hl
  have hundo : (abortWith m' reason faults).txd.undoActionList = m'.txd.undoActionList :=
    (xAbort_lists m' reason).2
  have hl' : others (abortWith m' reason faults).txd.undoActionList.entries = l := by
    rw [hundo]
    exact hl
  obtain ⟨fuel₀, o, hfuel, hoff⟩ := execSeek_tracks.undo (abortWith m' reason faults) trivial
    (by rw [hundo]; exact hlists.2) (by rw [hl']; exact hreg)
  rw [hl'] at hoff
  have hsame : o.mach.world.kernel.offsets = m.world.kernel.offsets := hoff.trans hback
  exact ⟨fuel₀, o, hfuel, congrArg Offsets.fds hsame, congrArg Offsets.files hsame⟩

/-- `x_read` gets one of three bytes, `x_lseek` fails once, `x_write_ovr` saves one byte and writes
two of three -/
def shortCalls : List (Request × List Nat) :=
  [(⟨.read 3 3, none, smallAnswers⟩, [1]),
    (⟨.lseek 3 1 .seekCur, none, smallAnswers⟩, []),
    (⟨.lseek 3 (-9) .seekSet, none, smallAnswers⟩, []),
    (⟨.write 3 [7, 8, 9] .ovrSave, none, smallAnswers⟩, [1, 2])]

theorem abort_restores_offsets_short :
    ∃ out m', offsetRun shortCalls (xBegin openedMach) = some (out, m') ∧
      (m'.world.kernel.openFile 3).map OpenFile.offset = some 4 ∧
      (openedMach.world.kernel.openFile 3).map OpenFile.offset = some 0 ∧
      ∃ fuel₀ o,
        (∀ fuel ≥ fuel₀,
          txGenericUndoAction execSeek fuel (abortWith m' .userabort [some 5]) = some o) ∧
          o.mach.world.kernel.fds = openedMach.world.kernel.fds ∧
          o.mach.world.kernel.files = openedMach.world.kernel.files := by
  have hrun : ((offsetRun shortCalls (xBegin openedMach)).map
      fun r => (r.2.world.kernel.openFile 3).map OpenFile.offset) = some (some 4) := by
    decide +kernel
  obtain ⟨⟨out, m'⟩, h, hoff⟩ := Option.map_eq_some_iff.mp hrun
  refine ⟨out, m', h, hoff, by decide +kernel,
    abort_restores_offsets openedMach shortCalls ?_ out m' h _ _⟩
  intro c hc
  simp only [shortCalls, List.mem_cons, List.not_mem_nil, or_false] at hc
  rcases hc with rfl | rfl | rfl | rfl <;> trivial

end XCalls
