import Mathlib.Algebra.BigOperators.Group.Finset.Basic
import XCalls.XCall.FileCalls

/-!
# Different files, different KOAs: the threads of a process

The threads make calls of `x_open`, `x_create`, `x_close`, `x_rename` and `x_unlink`, in their
transactions and outside, and each transaction commits or aborts.

* `FileProcess`, `FileEvent`, `fileEvent`   what the threads do, step by step;
* `FileEvent.Own`  a call touches no file whose inode number is that of another file with a KOA,
                   and each action that finds its descriptor in a KOA finds it mapped to that KOA;
* `own_koas`       along such steps, what meets a KOA is of the file of the KOA, and so is every
                   descriptor that is mapped to it;
* `open_on_two_devices`   two files with one inode number;
* `stale_descriptor`   an `x_close_commit` that finds a descriptor which its KOA has no longer.
-/

set_option linter.unusedSectionVars false

namespace XCalls
open Prog EventSys
open scoped BigOperators
variable {T : Type} [DecidableEq T] {n N : Nat}

/-! ## the actions of a list -/

/-- each descriptor that an action finds in the array of its KOA is mapped to this KOA -/
def DropsOwn : List (XAction N × Int32) → Koas n N → Prop
  | [], _ => True
  | (a, _) :: l, c =>
    (∀ x ∈ a.fds, c.Lists x.2 x.1 → c.map x.1 = some x.2) ∧ DropsOwn l (a.dropped c)

def decDropsOwn : ∀ (l : List (XAction N × Int32)) (c : Koas n N), Decidable (DropsOwn l c)
  | [], _ => isTrue trivial
  | (a, _) :: l, c =>
    have := decDropsOwn l (a.dropped c)
    inferInstanceAs (Decidable (_ ∧ _))

instance (l : List (XAction N × Int32)) (c : Koas n N) : Decidable (DropsOwn l c) :=
  decDropsOwn l c

/-- the machine between two actions, when `refs k` references to `k` are left to be dropped -/
def MachKeys (m : XMach T n N) (refs : Fin N → Nat) : Prop :=
  FileInv m.world.koamgr.koas (records m) m.world.kernel.fileOf refs

section
variable {m m' : XMach T n N} {refs : Fin N → Nat}

theorem FileInv.ofRecords {c : Koas n N} {r r' : Records N} {files : Nat → Option FileId}
    (h : FileInv c r files refs) (hfile : r'.koaFile = r.koaFile) (hlog : r'.log = r.log) :
    FileInv c r' files refs := by
  obtain ⟨koaFile, log, undos⟩ := r'
  cases hfile
  cases hlog
  exact ⟨h.held, h.known, h.agree, h.mapped, h.met⟩

theorem MachKeys.congr (h : MachKeys m refs) (hw : m'.world = m.world) : MachKeys m' refs := by
  unfold MachKeys
  rw [hw]
  refine h.ofRecords ?_ ?_
  · exact congrArg World.koaFile hw
  · exact congrArg World.log hw

theorem MachKeys.sentinelmgr (h : MachKeys m refs) (a : ActOf (XAction N))
    (ha : ∀ x, a ≠ .other x) : MachKeys (exec a m).1 refs := by
  have hlog : (records (exec a m).1).koaFile = (records m).koaFile ∧
      (records (exec a m).1).log = (records m).log := by
    cases a with
    | sentinelmgrCommit => exact ⟨rfl, rfl⟩
    | sentinelmgrUndo =>
      simp only [exec]
      split
      · exact ⟨rfl, rfl⟩
      · unfold reacquireSentinels
        split
        · exact ⟨rfl, rfl⟩
        · exact ⟨rfl, rfl⟩
    | other a => exact absurd rfl (ha a)
  unfold MachKeys
  rw [exec_sentinelmgr_koas a ha m, (exec_sentinelmgr a ha m).1]
  exact h.ofRecords hlog.1 hlog.2

theorem MachKeys.action {a : XAction N} (h : MachKeys m fun k => refs k + a.koas.count k)
    (ha : a.OnFile)
    (hfd : ∀ x ∈ a.fds, m.world.koamgr.koas.Lists x.2 x.1 →
      m.world.koamgr.koas.map x.1 = some x.2) :
    MachKeys (exec (.other a) m).1 refs ∧
      (exec (.other a) m).1.world.koamgr.koas = a.dropped m.world.koamgr.koas :=
  run_keyed (action_keys (s := (inodeView m, records m)) ha h hfd) (exec_other a m)

/-- the actions are called one after the other -/
theorem callAll_keys (es : List (XEntry N)) : ∀ m : XMach T n N,
    MachKeys m (fun k => refs k + (koasOf (others es)).count k) →
    (∀ x ∈ others es, x.1.OnFile) → DropsOwn (others es) m.world.koamgr.koas →
    MachKeys (callAll exec es m).2 refs := by
  induction es with
  | nil => exact fun m h _ _ => h
  | cons e es ih =>
    intro m h hon hown
    have hw : (callEntry exec e m).1.world = (exec e.function m).1.world := Mach.store_world _ _ _
    show MachKeys (callAll exec es (callEntry exec e m).1).2 refs
    cases he : e.function with
    | other a =>
      have hcons : others (e :: es) = (a, e.order) :: others es := by simp [others, he]
      rw [hcons] at h hon hown
      obtain ⟨hfd, hown⟩ := hown
      rw [he] at hw
      have hsplit : MachKeys m fun k =>
          (refs k + (koasOf (others es)).count k) + a.koas.count k := by
        refine h.weaken fun k => ?_
        show _ ≤ refs k + List.count k (a.koas ++ koasOf (others es))
        rw [List.count_append]
        omega
      obtain ⟨hkeys, hkoas⟩ := hsplit.action (hon (a, e.order) List.mem_cons_self) hfd
      refine ih _ (hkeys.congr hw) (fun x hx => hon x (List.mem_cons_of_mem _ hx)) ?_
      rw [hw, hkoas]
      exact hown
    | sentinelmgrCommit | sentinelmgrUndo =>
      have hcons : others (e :: es) = others es := by simp [others, he]
      rw [hcons] at h hon hown
      have hne : ∀ x, e.function ≠ .other x := fun x hx => by rw [he] at hx; cases hx
      refine ih _ ((h.sentinelmgr e.function hne).congr hw) hon ?_
      rw [hw, exec_sentinelmgr_koas e.function hne m]
      exact hown

/-- a generic action calls the actions in another order -/
theorem InOrder.keys {scan executed : List (XEntry N)} (hord : InOrder scan executed)
    (h : MachKeys m fun k => refs k + (koasOf (others scan)).count k)
    (hon : ∀ x ∈ others scan, x.1.OnFile)
    (hown : DropsOwn (others executed) m.world.koamgr.koas) :
    MachKeys (callAll exec executed m).2 refs := by
  have hperm : (others executed).Perm (others scan) := hord.once.filterMap _
  refine callAll_keys executed m ?_ (fun x hx => hon x (hperm.mem_iff.mp hx)) hown
  refine h.weaken fun k => ?_
  show refs k + ((others executed).flatMap fun x => x.1.koas).count k ≤ _
  rw [(hperm.flatMap_right fun x => x.1.koas).count_eq k]
  exact le_rfl

end

/-! ## the process -/

/-- `aborting t` is the reason when the transaction of `t` is to be undone -/
structure FileProcess (T : Type) (n N : Nat) extends Process T n N where
  aborting : T → Option AbortReason

/-- what the thread `t` does; the kernel's part is in `answers` -/
inductive FileEvent (T : Type) where
  | begin (t : T)
  | becomeIrrevocable (t : T)
  | call (t : T) (c : FileCall) (result : Option Nat) (answers : Answers)
  | commit (t : T) (fuel : Nat) (answers : Answers)
  | abort (t : T) (reason : AbortReason) (fuel : Nat) (answers : Answers)

def Process.undoing (s : Process T n N) (t : T) (reason : AbortReason) (answers : Answers) :
    XMach T n N :=
  withAnswers (xAbort (s.enter t) reason) answers

def FileProcess.ended (s : FileProcess T n N) (t : T)
    (o : Outcome (ActOf (XAction N)) (Fin n) (World T n N)) : FileProcess T n N :=
  let s' := s.leave t o.mach
  { s' with
    xactstate := Function.update s'.xactstate t .nontransactional
    aborting := Function.update s.aborting t none }

/-- a call may fail; one that aborts its transaction is followed by the undo actions -/
def fileEvent (s : FileProcess T n N) : FileEvent T → Option (FileProcess T n N)
  | .begin t =>
    if s.aborting t = none ∧ s.xactstate t = .nontransactional then
      some { s with toProcess := s.leave t (xBegin (s.enter t)) }
    else none
  | .becomeIrrevocable t =>
    if s.aborting t = none ∧ s.xactstate t = .retryable then
      some { s with xactstate := Function.update s.xactstate t .irrevocable }
    else none
  | .call t c result answers =>
    if s.aborting t = none then
      match run handle (c.prog result) (withAnswers (s.enter t) answers) with
      | some (.ok _, m) => some { s with toProcess := s.leave t m }
      | some (.error (.abort reason), m) =>
        some { toProcess := s.leave t m, aborting := Function.update s.aborting t (some reason) }
      | _ => none
    else none
  | .commit t fuel answers =>
    if s.aborting t = none ∧ s.xactstate t ≠ .nontransactional then
      (txGenericCommitAction exec fuel (withAnswers (s.enter t) answers)).map (s.ended t)
    else none
  | .abort t reason fuel answers =>
    if (s.aborting t = none ∨ s.aborting t = some reason) ∧ s.xactstate t = .retryable then
      (txGenericUndoAction exec fuel (s.undoing t reason answers)).map (s.ended t)
    else none

/-! ## the condition -/

instance (c : Koas n N) (k : Fin N) : Decidable (c.OfFile k) :=
  inferInstanceAs (Decidable (_ ∧ _))

instance (c : Koas n N) (r : Records N) (f : FileId) : Decidable (c.Agrees r f) :=
  inferInstanceAs (Decidable (∀ _, _ → _ → _))

/-- the files that the call looks up or opens have inode numbers of their own, among themselves and
among the files with a KOA -/
def FileCall.Own (c : FileCall) (m : XMach T n N) : Prop :=
  (∀ f ∈ (inodeView m).touched c, m.world.koamgr.koas.Agrees (records m) f) ∧
    ((inodeView m).touched c).Pairwise fun f g => g.ino = f.ino → g = f

instance (c : FileCall) (m : XMach T n N) : Decidable (c.Own m) :=
  inferInstanceAs (Decidable (_ ∧ _))

/-- the undo actions in the order of their calls -/
def Process.undos (s : Process T n N) (t : T) : List (XAction N × Int32) :=
  others (undoScan (s.txd t))

def FileEvent.Own (s : FileProcess T n N) : FileEvent T → Prop
  | .call t c _ answers => c.Own (withAnswers (s.enter t) answers)
  | .commit t _ _ => DropsOwn (s.commits t) s.mach.world.koamgr.koas
  | .abort t _ _ _ => DropsOwn (s.undos t) s.mach.world.koamgr.koas
  | .begin _ => True
  | .becomeIrrevocable _ => True

instance (s : FileProcess T n N) : ∀ e, Decidable (FileEvent.Own s e)
  | .call _ _ _ _ => inferInstanceAs (Decidable (FileCall.Own _ _))
  | .commit _ _ _ => inferInstanceAs (Decidable (DropsOwn _ _))
  | .abort _ _ _ _ => inferInstanceAs (Decidable (DropsOwn _ _))
  | .begin _ => isTrue trivial
  | .becomeIrrevocable _ => isTrue trivial

/-- every file that met a KOA is the file of the KOA, and so is the file of a descriptor that is
mapped to it -/
def OwnKoas (s : Process T n N) : Prop :=
  (∀ p ∈ s.mach.world.log, p.1 = p.2) ∧
    ∀ fd k, s.mach.world.koamgr.map fd = some k → (s.mach.world.koamgr.koa k).type = .file →
      s.mach.world.kernel.fileOf fd = s.mach.world.koaFile k

/-- the process has just started -/
structure FileProcess.Start (s : FileProcess T n N) : Prop where
  koamgr : koamgrCreate T n N = some s.mach.world.koamgr
  log : s.mach.world.log = []
  outside : ∀ t, s.xactstate t = .nontransactional
  txd : ∀ t, s.txd t = txCreate
  running : ∀ t, s.aborting t = none

/-! ## steps of the threads -/

structure ListsOnFile (txd : TxDesc (ActOf (XAction N)) (Fin n)) : Prop where
  ok : ListsOk txd
  commits : ∀ x ∈ others txd.commitActionList.entries, (x.2 = 0 ∨ x.2 = 1) ∧ x.1.OnFile
  undos : ∀ x ∈ others txd.undoActionList.entries, x.2 = 0 ∧ x.1.OnFile
  undos_le : ∀ k, (koasOf (others txd.undoActionList.entries)).count k
    ≤ (koasOf (others txd.commitActionList.entries)).count k

def Process.pending (s : Process T n N) (t : T) : List (Fin N) :=
  koasOf (others (s.txd t).commitActionList.entries)

section
variable [Fintype T] {s s' : Process T n N} {t : T} {m : XMach T n N}

def Process.othersRefs (s : Process T n N) (t : T) (k : Fin N) : Nat :=
  ∑ t' ∈ Finset.univ.erase t, (s.pending t').count k

/-- between two steps: `FileInv`, with the references of all threads -/
structure Process.KeyInv (s : Process T n N) : Prop where
  inv : MachKeys s.mach fun k => ∑ t, (s.pending t).count k
  threads : ∀ t, ListsOnFile (s.txd t)

theorem Process.sum_pending (s : Process T n N) (t : T) (k : Fin N) :
    ∑ t', (s.pending t').count k = s.othersRefs t k + (s.pending t).count k :=
  (Finset.sum_erase_add _ _ (Finset.mem_univ t)).symm

theorem Process.KeyInv.state (h : s.KeyInv) (t : T) (answers : Answers) :
    KeyState (s.othersRefs t) [] (inodeView (withAnswers (s.enter t) answers),
      records (withAnswers (s.enter t) answers)) where
  inv := by
    have hinv : MachKeys (withAnswers (s.enter t) answers) _ := h.inv.ofRecords rfl rfl
    exact hinv.weaken fun k => (s.sum_pending t k).ge
  commits := (h.threads t).commits
  undos := (h.threads t).undos
  undos_le := (h.threads t).undos_le

/-- a thread has run, and the others have not -/
theorem Process.KeyInv.leave (h : s.KeyInv)
    (hm : KeyState (s.othersRefs t) [] (inodeView m, records m)) (hl : ListsOk m.txd) :
    (s.leave t m).KeyInv := by
  have hself : (s.leave t m).txd t = m.txd := Function.update_self ..
  have hother : ∀ t', t' ≠ t → (s.leave t m).txd t' = s.txd t' := fun t' ht =>
    Function.update_of_ne ht _ _
  refine ⟨?_, fun t' => ?_⟩
  · have hinv : MachKeys m _ := hm.inv
    refine hinv.weaken fun k => ?_
    have hrest : (s.leave t m).othersRefs t k = s.othersRefs t k := by
      refine Finset.sum_congr rfl fun t' ht => ?_
      unfold Process.pending
      rw [hother t' (Finset.ne_of_mem_erase ht)]
    rw [Process.sum_pending _ t, hrest, Process.pending, hself]
    exact le_rfl
  · by_cases ht : t' = t
    · subst ht
      rw [hself]
      exact ⟨hl, hm.commits, hm.undos, hm.undos_le⟩
    · rw [hother t' ht]
      exact h.threads t'

/-- a thread has no actions any more, and has dropped its references -/
theorem Process.KeyInv.emptied (h : s.KeyInv) (hm : MachKeys m (s.othersRefs t))
    (hl : ListsOk m.txd) (hnone : actions m.txd = ([], [])) : (s.leave t m).KeyInv := by
  obtain ⟨hcommits, hundos⟩ := Prod.mk.inj hnone
  refine h.leave ⟨?_, fun x hx => ?_, fun x hx => ?_, fun k => ?_⟩ hl
  · refine hm.weaken fun k => ?_
    show s.othersRefs t k + (koasOf (others m.txd.commitActionList.entries)).count k + 0 ≤ _
    rw [hcommits]
    exact le_rfl
  · have hx : x ∈ others m.txd.commitActionList.entries := hx
    rw [hcommits] at hx
    cases hx
  · have hx : x ∈ others m.txd.undoActionList.entries := hx
    rw [hundos] at hx
    cases hx
  · show (koasOf (others m.txd.undoActionList.entries)).count k ≤ _
    rw [hundos]
    exact Nat.zero_le _

theorem Cleared.lists {txd : TxDesc (ActOf (XAction N)) (Fin n)} (h : Cleared txd) :
    ListsOk txd ∧ actions txd = ([], []) := by
  unfold ListsOk actions
  rw [h.commits, h.undos]
  exact ⟨⟨(fun e he => by cases he), (fun e he => by cases he)⟩, rfl⟩

theorem call_keys (c : FileCall) (result : Option Nat) {v : InodeView n N × Records N}
    {other : Fin N → Nat} (h : KeyState other [] v)
    (ha : ∀ f ∈ v.1.touched c, v.1.koas.Agrees v.2 f)
    (hd : (v.1.touched c).Pairwise fun f g => g.ino = f.ino → g = f) :
    wp (keyedStep T) (c.prog result : XProg n N Int) (KeyPost other) v := by
  cases c with
  | «open» pathname flags => exact xOpen_keys pathname flags result h ha
  | create pathname => exact xCreate_keys pathname result h ha
  | close fildes => exact xClose_keys fildes result h
  | rename oldpath newpath => exact xRename_keys oldpath newpath result h ha hd
  | unlink pathname => exact xUnlink_keys pathname result h ha

theorem commit_keys (h : s.KeyInv) {fuel : Nat} {answers : Answers}
    {o : Outcome (ActOf (XAction N)) (Fin n) (World T n N)}
    (hown : DropsOwn (s.commits t) s.mach.world.koamgr.koas)
    (ho : txGenericCommitAction exec fuel (withAnswers (s.enter t) answers) = some o) :
    (s.leave t o.mach).KeyInv := by
  have hstate := h.state t answers
  have hon := (h.threads t).commits
  have horder : ∀ x ∈ others (commitScan (withAnswers (s.enter t) answers).txd),
      x.2 = 0 ∨ x.2 = 1 := fun x hx => (hon x hx).1
  obtain ⟨hord, -, hmach⟩ := txGenericCommitAction_of_some exec_registersNothing
    ((h.threads t).ok.1.nonneg horder) ho
  have hkeys : MachKeys (callAll exec o.executed (withAnswers (s.enter t) answers)).2
      (s.othersRefs t) := by
    refine hord.keys hstate.inv (fun x hx => (hon x hx).2) ?_
    rw [others_inOrder hord horder]
    exact hown
  rw [hmach]
  obtain ⟨hl, hnone⟩ := (cleared_commitTail _ _).lists
  exact h.emptied (hkeys.congr (commitTail_world _ _)) hl hnone

theorem abort_keys (h : s.KeyInv) {reason : AbortReason} {fuel : Nat} {answers : Answers}
    {o : Outcome (ActOf (XAction N)) (Fin n) (World T n N)}
    (hown : DropsOwn (s.undos t) s.mach.world.koamgr.koas)
    (ho : txGenericUndoAction exec fuel (s.undoing t reason answers) = some o) :
    (s.leave t o.mach).KeyInv := by
  have hstate := h.state t answers
  have hon := (h.threads t).undos
  have hscan : undoScan (s.undoing t reason answers).txd
      = (s.txd t).undoActionList.entries.reverse := by
    show (xAbort (s.enter t) reason).txd.undoActionList.entries.reverse = _
    rw [(xAbort_lists (s.enter t) reason).2]
    rfl
  have hback : ∀ x, x ∈ others (undoScan (s.undoing t reason answers).txd) →
      x ∈ others (s.txd t).undoActionList.entries := by
    intro x hx
    rw [hscan] at hx
    exact (((List.reverse_perm _).filterMap _).mem_iff).mp hx
  have horder : ∀ e ∈ undoScan (s.undoing t reason answers).txd, 0 ≤ e.order := by
    intro e he
    rw [hscan] at he
    exact (h.threads t).ok.2.nonneg (fun x hx => Or.inl (hon x hx).1) e (List.mem_reverse.mp he)
  obtain ⟨hord, -, hmach⟩ := txGenericUndoAction_of_some exec_registersNothing horder ho
  have hkeys : MachKeys (callAll exec o.executed (s.undoing t reason answers)).2
      (s.othersRefs t) := by
    have hinv : MachKeys (s.undoing t reason answers) _ := hstate.inv.ofRecords rfl rfl
    refine hord.keys (hinv.weaken fun k => ?_) (fun x hx => (hon x (hback x hx)).2) ?_
    · rw [hscan]
      have hperm : (others (s.txd t).undoActionList.entries.reverse).Perm
          (others (s.txd t).undoActionList.entries) := (List.reverse_perm _).filterMap _
      show _ + ((others _).flatMap fun x => x.1.koas).count k ≤ _
      rw [(hperm.flatMap_right fun x => x.1.koas).count_eq k]
      exact Nat.add_le_add_left ((h.threads t).undos_le k) _
    · rw [others_inOrder_zero hord fun x hx => (hon x (hback x hx)).1, hscan]
      exact hown
  rw [hmach]
  obtain ⟨hl, hnone⟩ := (cleared_undoTail _ _).lists
  exact h.emptied (hkeys.congr (undoTail_world _ _)) hl hnone

theorem begin_keys (h : s.KeyInv) : (s.leave t (xBegin (s.enter t))).KeyInv := by
  obtain ⟨hl, hnone⟩ := xBegin_lists (s.enter t)
  have hinv : MachKeys (xBegin (s.enter t)) _ := h.inv.ofRecords rfl rfl
  refine h.emptied (hinv.weaken fun k => ?_) hl hnone
  rw [s.sum_pending t k]
  exact Nat.le_add_right _ _

theorem step_keys {s s' : FileProcess T n N} (h : s.toProcess.KeyInv) (e : FileEvent T)
    (hok : FileEvent.Own s e) (hs : fileEvent s e = some s') : s'.toProcess.KeyInv := by
  cases e with
  | begin t =>
    simp only [fileEvent] at hs
    split at hs
    · cases hs
      exact begin_keys h
    · cases hs
  | becomeIrrevocable t =>
    simp only [fileEvent] at hs
    split at hs
    · cases hs
      exact ⟨h.inv, h.threads⟩
    · cases hs
  | call t c result answers =>
    simp only [fileEvent] at hs
    split at hs
    · have hwp := call_keys (T := T) c result (h.state t answers) hok.1 hok.2
      split at hs
      · rename_i r m hrun
        cases hs
        refine h.leave (run_keyed hwp hrun) ?_
        exact run_inv (J := fun m : XMach T n N => ListsOk m.txd)
          (fun i b m m' hm => handle_listsOk i b m m' hm) hrun (h.threads t).ok
      · rename_i reason m hrun
        cases hs
        refine h.leave (run_keyed hwp hrun) ?_
        exact run_inv (J := fun m : XMach T n N => ListsOk m.txd)
          (fun i b m m' hm => handle_listsOk i b m m' hm) hrun (h.threads t).ok
      · cases hs
    · cases hs
  | commit t fuel answers =>
    simp only [fileEvent] at hs
    split at hs
    · obtain ⟨o, ho, rfl⟩ := Option.map_eq_some_iff.mp hs
      have hleave := commit_keys h hok ho
      exact ⟨hleave.inv, hleave.threads⟩
    · cases hs
  | abort t reason fuel answers =>
    simp only [fileEvent] at hs
    split at hs
    · obtain ⟨o, ho, rfl⟩ := Option.map_eq_some_iff.mp hs
      have hleave := abort_keys h hok ho
      exact ⟨hleave.inv, hleave.threads⟩
    · cases hs

/-! ## runs of the threads -/

theorem start_keys {s : FileProcess T n N} (h : s.Start) : s.toProcess.KeyInv where
  inv := by
    have htype := koamgrCreate_type h.koamgr
    refine ⟨?_, fun k hk => absurd hk.2 (htype k), fun k _ hk => absurd hk.2 (htype k),
      fun _ k _ ht => absurd ht (htype k), fun p hp => ?_⟩
    · have hheld : Held s.mach.world.koamgr.koas [] fun _ => 0 := koasOk_koamgrCreate h.koamgr
      refine hheld.mono (fun _ hx => hx) fun k => ?_
      refine le_of_eq (Finset.sum_eq_zero fun t _ => ?_)
      unfold Process.pending
      rw [h.txd]
      rfl
    · have hp : p ∈ s.mach.world.log := hp
      rw [h.log] at hp
      cases hp
  threads t := by
    rw [h.txd]
    exact ⟨⟨(fun e he => by cases he), (fun e he => by cases he)⟩, (fun x hx => by cases hx),
      (fun x hx => by cases hx), fun k => Nat.zero_le _⟩

/-- **Different files, different KOAs.**  Whatever the threads do, and whatever the kernel answers:
along steps that meet `FileEvent.Own`, each operation meets KOAs of its own file only, and a
descriptor is mapped to a KOA of its own file. -/
theorem own_koas {s : FileProcess T n N} (h : Reach fileEvent FileEvent.Own FileProcess.Start s) :
    OwnKoas s.toProcess := by
  have hinv := h.inv (I := fun s => s.toProcess.KeyInv) (fun s hs => start_keys hs)
    fun s e s' hI hok hs => step_keys hI e hok hs
  exact ⟨hinv.inv.met, hinv.inv.mapped⟩

end

/-! ### a process of one thread -/

/-- `a` and `b` are on two devices, with one inode number -/
def sharedNumbers : Kernel :=
  { smallKernel with
    mount := fun p => if p = "b" then 2 else 1
    names := fun p => if p = "b" then (smallKernel.names "a").map fun f => { f with dev := 2 }
      else smallKernel.names p }

def startOn (k : Kernel) : FileProcess Unit 8 8 :=
  ⟨⟨smallMach k, fun _ => txCreate, fun _ => .nontransactional⟩, fun _ => none⟩

theorem startOn_start (k : Kernel) : (startOn k).Start where
  koamgr := smallProcess_start.koamgr
  log := rfl
  outside _ := rfl
  txd _ := rfl
  running _ := rfl

def openAs (pathname : Path) (fd : Nat) : FileEvent Unit :=
  .call () (.open pathname ⟨true, false, false⟩) none { smallAnswers with fd := fd }

def closeFd (fd : Nat) : FileEvent Unit := .call () (.close fd) none smallAnswers

theorem not_ownKoas {s : Process T n N} {fd : Nat} {k : Fin N} {f : FileId}
    (hfd : s.mach.world.kernel.fileOf fd = some f) (hk : s.mach.world.koamgr.map fd = some k)
    (ht : (s.mach.world.koamgr.koa k).type = .file) (hf : s.mach.world.koaFile k ≠ some f) :
    ¬ OwnKoas s := by
  intro h
  exact hf ((h.2 fd k hk ht).symm.trans hfd)

/-- **Two devices.**  The second `x_open` finds the KOA of the first file. -/
theorem open_on_two_devices :
    ¬ ∀ s : FileProcess Unit 8 8, Reach fileEvent any FileProcess.Start s →
      OwnKoas s.toProcess := by
  intro h
  have hrun : (run fileEvent (startOn sharedNumbers) [openAs "a" 3, openAs "b" 4]).map (fun s =>
      (s.mach.world.kernel.fileOf 4, s.mach.world.koamgr.map 4,
        (s.mach.world.koamgr.koa 3).type, s.mach.world.koaFile 3))
      = some (some ⟨2, 1, by decide⟩, some 3, .file, some ⟨1, 1, by decide⟩) := by
    decide +kernel
  obtain ⟨s, hs, hstate⟩ := Option.map_eq_some_iff.mp hrun
  obtain ⟨hfd, hmap, htype, hfile⟩ : _ ∧ _ ∧ _ ∧ _ := by simpa only [Prod.mk.injEq] using hstate
  refine not_ownKoas hfd hmap htype ?_
    (h s ((reach_of_run _ hs).mono_init fun _ h => h ▸ startOn_start sharedNumbers))
  rw [hfile]
  decide

/-- the condition on the calls alone -/
def callsOwn (s : FileProcess T n N) : FileEvent T → Prop
  | .call t c _ answers => c.Own (withAnswers (s.enter t) answers)
  | _ => True

instance (s : FileProcess T n N) : ∀ e, Decidable (callsOwn s e)
  | .call _ _ _ _ => inferInstanceAs (Decidable (FileCall.Own _ _))
  | .commit _ _ _ => isTrue trivial
  | .abort _ _ _ _ => isTrue trivial
  | .begin _ => isTrue trivial
  | .becomeIrrevocable _ => isTrue trivial

/-- a transaction closes descriptor 5 twice, the second time when it is irrevocable -/
def closedTwice : List (FileEvent Unit) :=
  [openAs "a" 3, openAs "a" 4, openAs "a" 5, .begin (), closeFd 5, .becomeIrrevocable (), closeFd 4,
    closeFd 3, openAs "a" 6, closeFd 5, openAs "b" 5, .commit () 40 smallAnswers, openAs "c" 7]

/-- **A stale descriptor.**  `x_close_commit` finds descriptor 5 in the KOA of `a`, though it is
open on `b` by now; the KOA loses its last reference, and is created again for `c`, while descriptor
6 is still mapped to it. -/
theorem stale_descriptor :
    ¬ ∀ s : FileProcess Unit 8 8, Reach fileEvent callsOwn FileProcess.Start s →
      OwnKoas s.toProcess := by
  intro h
  have hrun : (run (guarded fileEvent callsOwn) (startOn smallKernel) closedTwice).map (fun s =>
      (s.mach.world.kernel.fileOf 6, s.mach.world.koamgr.map 6,
        (s.mach.world.koamgr.koa 3).type, s.mach.world.koaFile 3))
      = some (some ⟨1, 1, by decide⟩, some 3, .file, some ⟨1, 3, by decide⟩) := by
    decide +kernel
  obtain ⟨s, hs, hstate⟩ := Option.map_eq_some_iff.mp hrun
  obtain ⟨hfd, hmap, htype, hfile⟩ : _ ∧ _ ∧ _ ∧ _ := by simpa only [Prod.mk.injEq] using hstate
  refine not_ownKoas hfd hmap htype ?_
    (h s ((reach_of_guarded closedTwice hs).mono_init fun _ h => h ▸ startOn_start smallKernel))
  rw [hfile]
  decide

/-- two transactions: one replaces, renames, unlinks and closes, and the other is undone -/
def twoTransactions : List (FileEvent Unit) :=
  [openAs "a" 3, .begin (),
    .call () (.create "b") none { smallAnswers with fd := 4 },
    .call () (.rename "a" "c") none smallAnswers,
    .call () (.unlink "b") none smallAnswers,
    closeFd 3, .commit () 80 smallAnswers,
    .begin (), openAs "c" 5, .abort () .userabort 80 smallAnswers]

theorem own_koas_twoTransactions : ∃ s : FileProcess Unit 8 8,
    Reach fileEvent FileEvent.Own FileProcess.Start s ∧
      s.mach.world.kernel.fileOf 3 = none ∧
      s.mach.world.kernel.fileOf 4 = some ⟨1, 3, by decide⟩ ∧
      s.mach.world.kernel.fileOf 5 = none ∧ OwnKoas s.toProcess := by
  have hrun : (run (guarded fileEvent FileEvent.Own) (startOn smallKernel) twoTransactions).map
      (fun s => (s.mach.world.kernel.fileOf 3, s.mach.world.kernel.fileOf 4,
        s.mach.world.kernel.fileOf 5))
      = some (none, some ⟨1, 3, by decide⟩, none) := by
    decide +kernel
  obtain ⟨s, hs, hstate⟩ := Option.map_eq_some_iff.mp hrun
  obtain ⟨h3, h4, h5⟩ : _ ∧ _ ∧ _ := by simpa only [Prod.mk.injEq] using hstate
  have hreach : Reach fileEvent FileEvent.Own FileProcess.Start s :=
    (reach_of_guarded twoTransactions hs).mono_init fun _ h => h ▸ startOn_start smallKernel
  exact ⟨s, hreach, h3, h4, h5, own_koas hreach⟩

end XCalls
