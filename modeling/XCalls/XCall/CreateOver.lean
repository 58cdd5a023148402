import XCalls.XCall.Faults
import XCalls.XCall.FdLocks
import XCalls.XCall.Names

/-!
# `x_create` over an existing file, when system calls fail

The file is renamed to a temporary name, and the path is opened with `O_CREAT | O_TRUNC`; the result
of the rename is not looked at.

* `run_isolate`    the sentinel of the file's KOA: the call aborts or goes on;
* `CreateOver`     what the call has done to the kernel, for each combination of outcomes;
* `createSafe`     the combinations after which the file is still there, under its name or aside;
* `abort_restores_overwritten`   after an abort the path names the old file with its old contents
                   exactly if the combination was one of these.
-/

set_option linter.unusedSectionVars false

namespace XCalls
open Prog
variable {T : Type} [DecidableEq T] {n N : Nat}

/-! ## the sentinel of the old file -/

/-- the KOA of the inode has a sentinel that another transaction holds -/
def inodeBusy (m : XMach T n N) (num : UInt32) : Bool :=
  match koaAliasCacheLookupInode m.world.koamgr num with
  | none => false
  | some k => sentinelBusy m k 0

section
variable {m m' : XMach T n N}

theorem faultView_of_nat {β : Type} {i : Instr n N β} {b : β} (h : handle i m = some (b, m'))
    (hi : faultStep i b (faultView m) (faultView m') →
      view m' = view m ∧ m'.world.answers.faults = m.world.answers.faults) :
    faultView m' = faultView m := by
  obtain ⟨h1, h2⟩ := hi (handle_faultStep h)
  rw [faultView, h1, h2]
  rfl

theorem run_isolate {inode : Inode} {f : Unit → XProg n N Int} {out : Except Stop Int}
    (h : run handle (xCreateIsolate inode >>= f) m = some (out, m')) :
    (inodeBusy m inode.num = true ∧ out = .error (.abort .busysentinel) ∧
      faultView m' = faultView m) ∨
    (inodeBusy m inode.num = false ∧ ∃ m₁, faultView m₁ = faultView m ∧
      run handle (f ()) m₁ = some (out, m')) := by
  obtain ⟨m₁, h1⟩ : ∃ m₁, handle (.lookupInode inode : Instr n N _) m
      = some (koaAliasCacheLookupInode m.world.koamgr inode.num, m₁) := ⟨_, rfl⟩
  have hv1 : faultView m₁ = faultView m := faultView_of_nat h1 id
  simp only [xCreateIsolate, xCreateCase2a, call_bind, op_bind, pure_eq] at h
  rw [run_step h1] at h
  cases hk : koaAliasCacheLookupInode m.world.koamgr inode.num with
  | none =>
    rw [hk] at h
    refine Or.inr ⟨by rw [inodeBusy, hk], m₁, hv1, h⟩
  | some k =>
    rw [hk] at h
    have hbusy : inodeBusy m inode.num = sentinelBusy m k 0 := by
      rw [inodeBusy, hk]
    have hsame : m₁.world.koamgr = m.world.koamgr ∧ m₁.txd = m.txd ∧
        m₁.world.self = m.world.self ∧ m₁.world.xactstate = m.world.xactstate ∧
        m₁.world.answers = m.world.answers := by
      simp only [handle, Option.some.injEq, Prod.mk.injEq, true_and] at h1
      rw [← h1, World.meet_eq]
      exact ⟨rfl, rfl, rfl, rfl, rfl⟩
    obtain ⟨hmgr, htxd, hself, hxact, hans⟩ := hsame
    dsimp only at h
    rw [op_bind, run_step (rfl : handle (.lockFdsRefbyKoa k) m₁ = some ((), m₁)),
      op_bind, run_op, Option.bind_eq_some_iff] at h
    obtain ⟨⟨s, m₂⟩, h2, h⟩ := h
    simp only [handle, hmgr, Option.map_eq_some_iff] at h2
    obtain ⟨s', hs, h2⟩ := h2
    cases h2
    rw [op_bind, run_op, Option.bind_eq_some_iff] at h
    obtain ⟨⟨x, m₂⟩, h2, h⟩ := h
    have hv2 : faultView m₂ = faultView m := (faultView_of_nat h2 id).trans hv1
    have hx : sentinelBusy m k 0 = decide (x = rBusysentinel) := by
      simp only [handle, hmgr, htxd, hself, hxact, hans, Option.map_eq_some_iff] at h2
      obtain ⟨⟨r, mgr, txd⟩, h3, h4⟩ := h2
      cases h4
      rw [sentinelBusy, hs]
      dsimp only
      rw [h3]
    rw [hbusy, hx]
    by_cases hb : x = rBusysentinel
    · rw [if_pos hb] at h
      refine Or.inl ⟨decide_eq_true hb, ?_⟩
      cases h
      exact ⟨rfl, hv2⟩
    · rw [if_neg hb] at h
      exact Or.inr ⟨decide_eq_false hb, m₂, hv2, h⟩

end

/-! ## the outcomes -/

def FaultView.renames (v : FaultView N) (p : Path) : Prop :=
  v.faults.head?.join = none ∧ v.kernel.mount p = v.kernel.mount v.temp

instance (v : FaultView N) (p : Path) : Decidable (v.renames p) := inferInstanceAs (Decidable (_ ∧ _))

def FaultView.opens (v : FaultView N) : Prop := v.faults.tail.head?.join = none

instance (v : FaultView N) : Decidable v.opens := inferInstanceAs (Decidable (_ = none))

def FaultView.renamesBack (v : FaultView N) : Prop := v.faults.tail.tail.head?.join = none

instance (v : FaultView N) : Decidable v.renamesBack := inferInstanceAs (Decidable (_ = none))

def FaultView.aside (v : FaultView N) (p : Path) (f : FileId) : Kernel :=
  if v.renames p then (v.kernel.setName v.temp (some f)).setName p none else v.kernel

def FaultView.back (v : FaultView N) (p : Path) (f : FileId) : Kernel :=
  if v.renames p ∧ v.renamesBack then ((v.aside p f).setName p (some f)).setName v.temp none
  else v.aside p f

inductive CreateOver (v : FaultView N) (p : Path) (f : FileId) : View N → Prop
  | opened (ho : v.opens) (koa : Fin N) :
      CreateOver v p f { v.toView with
        kernel := (sysOpen (v.aside p f) p creationFlags v.file v.fd).2
        commits := v.commits ++ [(.createCase2Commit ⟨v.fd, koa, v.temp, p⟩, 0)]
        undos := v.undos ++ [(.createCase2Undo ⟨v.fd, koa, v.temp, p⟩, 0)] }
  | failed (ho : ¬ v.opens) : CreateOver v p f { v.toView with kernel := v.back p f }

section
variable {v : FaultView N} {p : Path} {f : FileId}

theorem fault_same {v v' : FaultView N} (h : v'.toView = v.toView ∧ v'.faults = v.faults) :
    v' = v := by
  obtain ⟨w, l⟩ := v
  obtain ⟨w', l'⟩ := v'
  obtain ⟨rfl, rfl⟩ : w' = w ∧ l' = l := h
  rfl

theorem syscall_aside (hp : v.kernel.names p = some f) (ht : v.kernel.names v.temp = none) :
    (v.syscall fun k => sysRename k p v.temp).2
      = { v with kernel := v.aside p f, faults := v.faults.tail } := by
  by_cases hf : v.faults.head?.join = none
  · rw [FaultView.syscall_works hf]
    by_cases hm : v.kernel.mount p = v.kernel.mount v.temp
    · rw [FaultView.aside, if_pos ⟨hf, hm⟩, sysRename_eq hp hm ht]
    · rw [FaultView.aside, if_neg fun h => hm h.2]
      simp only [sysRename, hp, ne_eq, hm, not_false_eq_true, if_true]
  · obtain ⟨e, he⟩ := Option.ne_none_iff_exists'.mp hf
    rw [FaultView.syscall_fails he, FaultView.aside, if_neg fun h => hf h.1]

theorem sysOpen_creation (k : Kernel) (p : Path) (file : FileId) (fd : Nat) :
    (sysOpen k p creationFlags file fd).1 = .ok fd := by
  unfold sysOpen
  cases k.names p <;> rfl

theorem syscall_back (hp : v.kernel.names p = some f) (ht : v.kernel.names v.temp = none) :
    (({ v with kernel := v.aside p f, faults := v.faults.tail.tail } : FaultView N).syscall
      fun k => sysRename k v.temp p).2
      = { v with kernel := v.back p f, faults := v.faults.tail.tail.tail } := by
  have hne : v.temp ≠ p := fun h => by rw [h, hp] at ht; cases ht
  by_cases hf : v.renamesBack
  · rw [FaultView.syscall_works
      (v := { v with kernel := v.aside p f, faults := v.faults.tail.tail }) hf]
    by_cases hr : v.renames p
    · have h1 : (v.aside p f).names v.temp = some f := by
        rw [FaultView.aside, if_pos hr]
        show Function.update (Function.update v.kernel.names v.temp (some f)) p none v.temp = some f
        rw [Function.update_of_ne hne, Function.update_self]
      have h2 : (v.aside p f).names p = none := by
        rw [FaultView.aside, if_pos hr]
        exact Function.update_self ..
      have hm : (v.aside p f).mount v.temp = (v.aside p f).mount p := by
        rw [FaultView.aside, if_pos hr]
        exact hr.2.symm
      rw [FaultView.back, if_pos ⟨hr, hf⟩, sysRename_eq h1 hm h2]
    · have h1 : (v.aside p f).names v.temp = none := by
        rw [FaultView.aside, if_neg hr]
        exact ht
      rw [FaultView.back, if_neg fun h => hr h.1]
      simp only [sysRename, h1]
  · obtain ⟨e, he⟩ := Option.ne_none_iff_exists'.mp hf
    rw [FaultView.syscall_fails
      (v := { v with kernel := v.aside p f, faults := v.faults.tail.tail }) he, FaultView.back,
      if_neg fun h => hf h.2]

theorem wp_acquireNew_fault {α : Type} {koa : Fin N} {f : Unit → XProg n N α}
    {Q : Except Stop α → FaultView N → Prop} (he : Q (.error .internalError) v)
    (hf : wp faultStep (f ()) Q v) : wp faultStep (acquireNew koa >>= f) Q v := by
  simp only [acquireNew, call_bind, op_bind, wp_op]
  intro s v₁ h1
  rw [fault_same h1]
  intro x v₂ h2
  rw [fault_same h2]
  split
  · exact he
  · exact hf

theorem wp_allocArgs_fault {α : Type} {size : UInt32} {f : Unit → XProg n N α}
    {Q : Except Stop α → FaultView N → Prop} (he : Q (.error .internalError) v)
    (hf : wp faultStep (f ()) Q v) : wp faultStep (allocArgs size >>= f) Q v := by
  simp only [allocArgs, call_bind, op_bind, wp_op]
  intro ok v₁ h1
  rw [fault_same h1]
  split
  · exact he
  · exact hf

/-- what `x_create` does once the sentinel of the old file's KOA is its own -/
def overwriteExisting (p : Path) (result : Option Nat) : XProg n N Int := do
  let tempPathname ← call (.mktemp tempTemplate)
  let _ ← call (.libcRename p tempPathname)
  match ← call (.libcOpen p creationFlags) with
  | .error e =>
    let _ ← call (.libcRename tempPathname p)
    call .unlockAliasCache
    finish result (-1) e
  | .ok fildes =>
    let inode ← call (.path2inode p)
    let koaNew ← call (.createKoa inode)
    call (.lockFd fildes)
    call (.attachFd koaNew fildes false)
    acquireNew koaNew
    allocArgs createCase2ArgsSize
    let args : CreateCase2Args N := ⟨fildes, koaNew, tempPathname, p⟩
    call (.registerCommitAction (.createCase2Commit args) result regularActionOrder)
    call (.registerUndoAction (.createCase2Undo args) result regularActionOrder)
    call (.unlockFd fildes)
    call .unlockAliasCache
    finish result fildes 0

theorem xCreateCase2_eq (p : Path) (inode : Inode) (result : Option Nat) :
    (xCreateCase2 p inode result : XProg n N Int)
      = xCreateIsolate inode >>= fun _ => overwriteExisting p result := rfl

/-- where it ends: the only reason to stop is one that ends the process -/
def CreatePost (v : FaultView N) (p : Path) (f : FileId) (r : Except Stop Int)
    (v' : FaultView N) : Prop :=
  match r with
  | .ok _ => CreateOver v p f v'.toView
  | .error e => e = .internalError

theorem createPost_overwrite (result : Option Nat) (hp : v.kernel.names p = some f)
    (ht : v.kernel.names v.temp = none) :
    wp faultStep (overwriteExisting p result : XProg n N Int) (CreatePost v p f) v := by
  simp only [overwriteExisting, call_bind, wp_op]
  rintro _ v₀ ⟨⟨rfl, h0⟩, hf0⟩
  rw [fault_same ⟨h0, hf0⟩]
  intro b v₁ h1
  rw [show v₁ = { v with kernel := v.aside p f, faults := v.faults.tail } from
    (congrArg Prod.snd h1).trans (syscall_aside hp ht)]
  intro b v₂ h2
  by_cases ho : v.opens
  · have hopen := h2.trans (FaultView.syscall_works
      (v := { v with kernel := v.aside p f, faults := v.faults.tail }) ho _)
    obtain ⟨hb, hv⟩ := Prod.mk.inj hopen
    rw [sysOpen_creation] at hb
    subst hb
    rw [hv]
    dsimp only
    simp only [wp_op]
    intro inode v₃ h3
    rw [fault_same ⟨h3.1.2, h3.2⟩]
    intro koa v₄ h4
    rw [fault_same h4]
    intro _ v₅ h5
    rw [fault_same h5]
    intro _ v₆ h6
    rw [fault_same h6]
    refine wp_acquireNew_fault rfl (wp_allocArgs_fault rfl ?_)
    simp only [wp_op, finish, call_bind]
    intro _ v₇ h7 _ v₈ h8 _ v₉ h9
    rw [fault_same h9]
    intro _ v₁₀ h10
    rw [fault_same h10]
    intro _ v₁₁ h11
    rw [fault_same h11]
    show CreateOver v p f v₈.toView
    have hv8 : v₈.toView = { v₇.toView with
        undos := v₇.undos ++ [(.createCase2Undo ⟨v.fd, koa, v.temp, p⟩, 0)] } := h8.1
    have hv7 : v₇.toView = { v.toView with
        kernel := (sysOpen (v.aside p f) p creationFlags v.file v.fd).2
        commits := v.commits ++ [(.createCase2Commit ⟨v.fd, koa, v.temp, p⟩, 0)] } := h7.1
    rw [hv8, hv7]
    exact CreateOver.opened ho koa
  · obtain ⟨e, he⟩ := Option.ne_none_iff_exists'.mp ho
    have hopen := h2.trans (FaultView.syscall_fails
      (v := { v with kernel := v.aside p f, faults := v.faults.tail }) he _)
    obtain ⟨hb, hv⟩ := Prod.mk.inj hopen
    subst hb
    rw [hv]
    dsimp only
    simp only [wp_op, finish, call_bind]
    intro b v₃ h3
    rw [show v₃ = { v with kernel := v.back p f, faults := v.faults.tail.tail.tail } from
      (congrArg Prod.snd h3).trans (syscall_back hp ht)]
    intro _ v₄ h4
    rw [fault_same h4]
    intro _ v₅ h5
    rw [fault_same h5]
    exact CreateOver.failed ho

end

/-! ## the call -/

section
variable {m m' : XMach T n N} {p : Path} {f : FileId}

/-- **`x_create` over the file `f`.** -/
theorem create_over {result : Option Nat} {out : Except Stop Int}
    (hx : m.world.xactstate = .retryable) (hp : m.world.kernel.names p = some f)
    (ht : m.world.kernel.names m.world.answers.temp = none)
    (h : run handle (xCreate p result) m = some (out, m')) :
    (inodeBusy m f.ino = true ∧ out = .error (.abort .busysentinel) ∧ view m' = view m) ∨
    (inodeBusy m f.ino = false ∧ CreatePost (faultView m) p f out (faultView m')) := by
  have hprog : run handle (xCreate p result) m
      = run handle (xCreateCase2 p ⟨f.ino, some f⟩ result) m := by
    simp [xCreate, run_op, handle, hx, hp, f.ino_ne]
  rw [hprog, xCreateCase2_eq] at h
  rcases run_isolate h with ⟨hb, hout, hv⟩ | ⟨hb, m₁, hv, h1⟩
  · exact Or.inl ⟨hb, hout, congrArg FaultView.toView hv⟩
  · refine Or.inr ⟨hb, run_faultView ?_ h1⟩
    rw [hv]
    exact createPost_overwrite result hp ht

end

/-! ## the abort -/

/-- the calls that follow: `x_write` on one descriptor -/
def Request.WritesTo (fd : Nat) (c : Request) : Prop := ∃ buf flags, c.call = .write fd buf flags

theorem written_xRun {fd : Nat} {cs : List Request} (hc : ∀ c ∈ cs, c.WritesTo fd) :
    ∀ {m m' : XMach T n N} {out : Option AbortReason}, xRun handle cs m = some (out, m') →
      Written fd (view m) (view m') := by
  induction cs with
  | nil =>
    intro m m' out h
    cases h
    exact .refl _ _
  | cons c cs ih =>
    intro m m' out h
    obtain ⟨buf, flags, hcall⟩ := hc c List.mem_cons_self
    have hstep : ∀ {r : Except Stop Int} {m₁ : XMach T n N},
        run handle (c.call.prog c.result) (withAnswers m c.answers) = some (r, m₁) →
        Written fd (view m) (view m₁) := by
      intro r m₁ h1
      rw [hcall] at h1
      have hw := written_xWrite h1
      exact ⟨hw.keeps, hw.undos⟩
    unfold xRun at h
    split at h
    · cases h
    · exact (hstep ‹_›).trans (ih (fun d hd => hc d (List.mem_cons_of_mem _ hd)) h)
    · cases h
      exact hstep ‹_›
    · cases h

/-- the file is found again: the call is aborted before it does anything, or the file is set aside
and the path opened, or the file is set aside and renamed back, or nothing succeeds -/
def createSafe (m : XMach T n N) (p : Path) (f : FileId) : Prop :=
  inodeBusy m f.ino = true ∨
    if (faultView m).renames p then (faultView m).opens ∨ (faultView m).renamesBack
    else ¬ (faultView m).opens

instance (m : XMach T n N) (p : Path) (f : FileId) : Decidable (createSafe m p f) :=
  inferInstanceAs (Decidable (_ ∨ ite _ (_ ∨ _) (¬ _)))

theorem fileOf_install (k : Kernel) (f : FileId) (fd : Nat) : (k.install f fd).fileOf fd = some f := by
  show Option.map OpenFile.file (Option.map (Function.update k.files k.next ⟨f, 0⟩)
    (Function.update k.fds fd (some k.next) fd)) = some f
  rw [Function.update_self, Option.map_some, Function.update_self]
  rfl

section
variable {v : FaultView N} {p : Path} {f : FileId} {k : Kernel}

/-- the file was set aside: the undo action of `x_create` brings it back -/
theorem undo_aside (hp : v.kernel.names p = some f) (ht : v.kernel.names v.temp = none)
    (hfile : ¬ v.kernel.Exists v.file) (hr : v.renames p) (koa : Fin N)
    (hk : KeepsBut ((sysOpen (v.aside p f) p creationFlags v.file v.fd).2.fileOf v.fd)
      (sysOpen (v.aside p f) p creationFlags v.file v.fd).2 k) :
    ((XAction.createCase2Undo ⟨v.fd, koa, v.temp, p⟩).sys k).names p = some f ∧
      ((XAction.createCase2Undo ⟨v.fd, koa, v.temp, p⟩).sys k).content f = v.kernel.content f := by
  have hne : f ≠ v.file := fun h => hfile (Or.inl ⟨p, h ▸ hp⟩)
  have haside : v.aside p f = (v.kernel.setName v.temp (some f)).setName p none := if_pos hr
  have hnone : (v.aside p f).names p = none := by
    rw [haside]
    exact Function.update_self ..
  have hopen : (sysOpen (v.aside p f) p creationFlags v.file v.fd).2
      = (((v.aside p f).setName p (some v.file)).clear v.file).install v.file v.fd := by
    rw [sysOpen, hnone]
    rfl
  rw [hopen, fileOf_install] at hk
  have hnames : k.names = Function.update (Function.update (Function.update v.kernel.names v.temp
      (some f)) p none) p (some v.file) := by
    rw [hk.names, haside]
    rfl
  have hmount : k.mount v.temp = k.mount p := by
    rw [hk.mount, haside]
    exact hr.2.symm
  have hcont : k.content f = v.kernel.content f := by
    rw [hk.content f fun h => hne (Option.some.inj h).symm, haside]
    exact Function.update_of_ne hne _ _
  simp only [XAction.sys, sysClose_names, sysClose_content, sysRename_content, sysUnlink_content,
    sysRename_back hp ht hmount hnames, hp, hcont, and_self]

/-- the file was not set aside: the undo action removes it -/
theorem undo_truncated (hp : v.kernel.names p = some f) (ht : v.kernel.names v.temp = none)
    (hr : ¬ v.renames p) (koa : Fin N) {g : Option FileId}
    (hk : KeepsBut g (sysOpen (v.aside p f) p creationFlags v.file v.fd).2 k) :
    ((XAction.createCase2Undo ⟨v.fd, koa, v.temp, p⟩).sys k).names p = none := by
  have hne : v.temp ≠ p := fun h => by rw [h, hp] at ht; cases ht
  have hnames : k.names = v.kernel.names := by
    rw [hk.names, FaultView.aside, if_neg hr, sysOpen, hp]
    rfl
  have hgone : (sysUnlink k p).2.names v.temp = none := by
    rw [sysUnlink_names, hnames, Function.update_of_ne hne]
    exact ht
  simp only [XAction.sys, sysClose_names, sysRename, hgone, sysUnlink_names, Function.update_self]

theorem names_back (hp : v.kernel.names p = some f) (ht : v.kernel.names v.temp = none) :
    (v.back p f).names p = some f ↔ (v.renames p → v.renamesBack) := by
  have hne : p ≠ v.temp := fun h => by rw [← h, hp] at ht; cases ht
  by_cases hr : v.renames p
  · by_cases hb : v.renamesBack
    · rw [FaultView.back, if_pos ⟨hr, hb⟩]
      refine iff_of_true ?_ fun _ => hb
      show Function.update (Function.update (v.aside p f).names p (some f)) v.temp none p = some f
      rw [Function.update_of_ne hne, Function.update_self]
    · rw [FaultView.back, if_neg fun h => hb h.2, FaultView.aside, if_pos hr]
      refine iff_of_false (fun h => ?_) fun h => hb (h hr)
      have hnone : Function.update (Function.update v.kernel.names v.temp (some f)) p none p
          = none := Function.update_self ..
      cases hnone.symm.trans h
  · rw [FaultView.back, if_neg fun h => hr h.1, FaultView.aside, if_neg hr]
    exact iff_of_true hp fun h => absurd h hr

theorem content_back : (v.back p f).content = v.kernel.content := by
  unfold FaultView.back FaultView.aside
  split <;> split <;> rfl

theorem fds_back : (v.back p f).fds = v.kernel.fds := by
  unfold FaultView.back FaultView.aside
  split <;> split <;> rfl

end

theorem XAction.UndoesWrite.kernelOnly {fd : Nat} {a : XAction N} (h : a.UndoesWrite fd) :
    a.KernelOnly := by
  intro fd' koa he
  subst he
  cases h

/-- the undo actions of the call and of the writes, on the kernel -/
theorem undone_over {v : FaultView N} {p : Path} {f : FileId} {w w' : View N}
    (hp : v.kernel.names p = some f) (ht : v.kernel.names v.temp = none)
    (hfile : ¬ v.kernel.Exists v.file) (hfd : v.kernel.fds v.fd = none)
    (h : CreateOver v p f w) (hw : Written v.fd w w') :
    ∃ l, w'.undos = v.undos ++ l ∧ (∀ x ∈ l, x.2 = 0 ∧ x.1.KernelOnly) ∧
      (((effects l.reverse w'.kernel).names p = some f ∧
          (effects l.reverse w'.kernel).content f = v.kernel.content f) ↔
        if v.renames p then v.opens ∨ v.renamesBack else ¬ v.opens) := by
  obtain ⟨l, hl, hlw⟩ := hw.undos
  have hregs : ∀ x ∈ l, x.2 = 0 ∧ x.1.KernelOnly :=
    fun x hx => ⟨(hlw x hx).1, (hlw x hx).2.kernelOnly⟩
  -- the writes and their undo actions change the file behind the descriptor only
  have hback := effects_keepsBut (fun x hx => (hlw x (List.mem_reverse.mp hx)).2) w'.kernel
  rw [hw.keeps.fileOf] at hback
  have hk := hw.keeps.trans hback
  cases h with
  | opened ho koa =>
    refine ⟨(.createCase2Undo ⟨v.fd, koa, v.temp, p⟩, 0) :: l, ?_, ?_, ?_⟩
    · rw [hl]
      exact List.append_assoc _ _ _
    · intro x hx
      rcases List.mem_cons.mp hx with rfl | hx
      · exact ⟨rfl, fun _ _ he => by cases he⟩
      · exact hregs x hx
    · rw [List.reverse_cons, effects_append]
      by_cases hr : v.renames p
      · rw [if_pos hr]
        exact iff_of_true (undo_aside hp ht hfile hr koa hk) (Or.inl ho)
      · rw [if_neg hr]
        refine iff_of_false (fun hc => ?_) (not_not.mpr ho)
        have hnone : (effects [(.createCase2Undo ⟨v.fd, koa, v.temp, p⟩, 0)]
            (effects l.reverse w'.kernel)).names p = none := undo_truncated hp ht hr koa hk
        cases hnone.symm.trans hc.1
  | failed ho =>
    refine ⟨l, hl, hregs, ?_⟩
    have hclosed : (v.back p f).fileOf v.fd = none := by
      rw [Kernel.fileOf, Kernel.openFile, fds_back, hfd]
      rfl
    have hcont : (effects l.reverse w'.kernel).content f = v.kernel.content f := by
      rw [hk.content f fun hc => by cases hclosed.symm.trans hc]
      exact congrFun content_back f
    have hnames : (effects l.reverse w'.kernel).names p = (v.back p f).names p :=
      congrFun hk.names p
    rw [hnames, names_back hp ht]
    by_cases hr : v.renames p
    · rw [if_pos hr]
      constructor
      · exact fun hc => Or.inr (hc.1 hr)
      · exact fun hc => ⟨fun _ => hc.resolve_left ho, hcont⟩
    · rw [if_neg hr]
      exact iff_of_true ⟨fun hc => absurd hc hr, hcont⟩ ho

/-- **Creating over an existing file.**  A retryable transaction calls `x_create` on the path of the
file `f`, whatever system calls fail, and then `x_write` on the new descriptor any number of times.
After it is aborted for any reason the generic undo action returns, and the path names `f` with its
old contents exactly if the combination of outcomes was safe. -/
theorem abort_restores_overwritten (m : XMach T n N) (p : Path) (f : FileId)
    (hp : m.world.kernel.names p = some f) (a : Answers) (ha : a.Ok m.world.kernel)
    (result : Option Nat) (cs : List Request) (hc : ∀ c ∈ cs, c.WritesTo a.fd)
    (out : Option AbortReason) (m' : XMach T n N)
    (hrun : xRun handle (⟨.create p, result, a⟩ :: cs) (xBegin m) = some (out, m'))
    (reason : AbortReason) :
    ∃ fuel₀ o, (∀ fuel ≥ fuel₀, txGenericUndoAction exec fuel (xAbort m' reason) = some o) ∧
      ((o.mach.world.kernel.names p = some f ∧
        o.mach.world.kernel.content f = m.world.kernel.content f) ↔
          createSafe (withAnswers (xBegin m) a) p f) := by
  have hcreate : ∀ {r : Except Stop Int} {m₁ : XMach T n N},
      run handle (xCreate p result) (withAnswers (xBegin m) a) = some (r, m₁) → _ :=
    fun h1 => create_over (m := withAnswers (xBegin m) a) rfl hp ha.temp h1
  have hall := hrun
  unfold xRun at hrun
  split at hrun
  · cases hrun
  · rename_i r m₁ h1
    rcases hcreate h1 with ⟨_, hout, _⟩ | ⟨hbusy, hpost⟩
    · cases hout
    obtain ⟨l, hl, hregs, hiff⟩ :=
      undone_over (v := faultView (withAnswers (xBegin m) a)) hp ha.temp ha.file ha.fd hpost
        (written_xRun hc hrun)
    obtain ⟨fuel₀, o, hfuel, hker⟩ := abort_kernel handles_handle hall hl hregs reason
    refine ⟨fuel₀, o, hfuel, ?_⟩
    rw [hker]
    unfold createSafe
    rw [hbusy]
    simp only [Bool.false_eq_true, false_or]
    exact hiff
  · -- the sentinel is busy: nothing was done
    rename_i reason₁ m₁ h1
    cases hrun
    rcases hcreate h1 with ⟨hbusy, _, hview⟩ | ⟨_, hpost⟩
    · have hl : (view m').undos = (view (xBegin m)).undos ++ [] := by
        rw [hview, List.append_nil]
        rfl
      obtain ⟨fuel₀, o, hfuel, hker⟩ :=
        abort_kernel handles_handle hall hl (fun _ h => nomatch h) reason
      refine ⟨fuel₀, o, hfuel, iff_of_true ?_ (Or.inl hbusy)⟩
      have hsame : o.mach.world.kernel = m.world.kernel :=
        hker.trans (congrArg View.kernel hview)
      rw [hsame]
      exact ⟨hp, rfl⟩
    · cases hpost
  · cases hrun

/-- `a` is created again, and two bytes are written to the new file -/
def createAndWrite : List Request :=
  [⟨.create "a", none, smallAnswers⟩, ⟨.write 3 [8, 9] .ovrSave, none, smallAnswers⟩]

theorem abort_restores_overwritten_small :
    ∃ out m', xRun handle createAndWrite (xBegin (smallMach smallKernel)) = some (out, m') ∧
      m'.world.kernel.names "a" = some ⟨1, 3, by decide⟩ ∧
      ∃ fuel₀ o, (∀ fuel ≥ fuel₀, txGenericUndoAction exec fuel (xAbort m' .userabort) = some o) ∧
        o.mach.world.kernel.names "a" = some ⟨1, 1, by decide⟩ ∧
        o.mach.world.kernel.content ⟨1, 1, by decide⟩ = [1, 2, 3] := by
  have hrun : ((xRun handle createAndWrite (xBegin (smallMach smallKernel))).map
      fun r => r.2.world.kernel.names "a") = some (some ⟨1, 3, by decide⟩) := by decide +kernel
  obtain ⟨⟨out, m'⟩, h, hb⟩ := Option.map_eq_some_iff.mp hrun
  obtain ⟨fuel₀, o, hfuel, hiff⟩ := abort_restores_overwritten (smallMach smallKernel) "a"
    ⟨1, 1, by decide⟩ (by decide) smallAnswers smallAnswers_ok none
    [⟨.write 3 [8, 9] .ovrSave, none, smallAnswers⟩] (by
      intro c hc
      rw [List.mem_singleton.mp hc]
      exact ⟨[8, 9], .ovrSave, rfl⟩) out m' h .userabort
  exact ⟨out, m', h, hb, fuel₀, o, hfuel, hiff.mpr (by decide +kernel)⟩

/-- the temporary files are on another device -/
def twoDevices : Kernel :=
  { smallKernel with mount := fun p => if p = smallAnswers.temp then 2 else 1 }

/-- **The file is lost.**  The rename fails with `EXDEV`, the old file is emptied, and the undo
action removes its name. -/
theorem overwritten_file_lost :
    twoDevices.names "a" = some ⟨1, 1, by decide⟩ ∧
      twoDevices.content ⟨1, 1, by decide⟩ = [1, 2, 3] ∧
      ((xRun handle createAndWrite (xBegin (smallMach twoDevices))).bind fun r =>
        (txGenericUndoAction exec 100 (xAbort r.2 .userabort)).map fun o =>
          (o.mach.world.kernel.names "a", o.mach.world.kernel.content ⟨1, 1, by decide⟩))
        = some (none, []) := by
  decide +kernel

end XCalls
