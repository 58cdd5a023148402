import XCalls.Lib.EventSys

/-!
# Threads created in a transaction

`x_pthread_create.c`: a transaction and the threads it creates, step by step.

* `ControlBlock`    `x_pthread_create_control_block_t`, with the call it belongs to;
* `ChildPc`         where a created thread is in `x_pthread_create_start_indirection`;
* `ParentPc`        where the transaction is: in `x_pthread_create`, in a commit action, in an undo
                    action, or elsewhere;
* `Pthreads`        the system: memory, the parent, its threads, and what has happened so far;
* `pthreadStep`     one step of the parent or of one thread;
* `PthreadInv`             the invariant;
* `pthread_create_deferred`   what holds in every run;
* `irrevocable_runs_early`   an irrevocable transaction creates its threads at once.

A thread is named by the call that creates it, a control block by its address; `MALLOC` may return
any address that is not in use.
-/

set_option linter.unusedSectionVars false

namespace XCalls
open EventSys
variable {R A : Type}

/-! ## the system -/

structure ControlBlock (R A : Type) where
  startLock : Bool
  start : Option R
  arg : A
  call : Nat
  deriving DecidableEq

/-- where a thread is; the block is the argument of `x_pthread_create_start_indirection` -/
inductive ChildPc (R A : Type) where
  | absent
  | entry (block : Nat)
  | locking (block : Nat) (myarg : A)
  | loading (block : Nat) (myarg : A)
  | freeing (block : Nat) (myarg : A) (startRoutine : Option R)
  | starting (myarg : A) (startRoutine : Option R)
  | direct (startRoutine : R) (myarg : A)
  | done
  deriving DecidableEq

/-- where the parent is; `undoing`: whether the transaction is tried again, the blocks whose undo
actions are left, and whether the first of them has written its `NULL` -/
inductive ParentPc where
  | outside
  | running (irrevocable : Bool)
  | spawning (block call : Nat)
  | registeringCommit (block : Nat)
  | registeringUndo (block : Nat)
  | committing (rest : List Nat)
  | undoing (retry : Bool) (rest : List Nat) (cleared : Bool)
  deriving DecidableEq

structure Call (R A : Type) where
  attempt : Nat
  start : R
  arg : A
  direct : Bool
  deriving DecidableEq

/-- what the parent has decided about a call: `cancelled` is an undo action between its two steps -/
inductive Decision where
  | pending
  | cancelled
  | committed
  | aborted
  deriving DecidableEq, Repr

/-- `access`: the parent has accessed a field of the block of a call; `release`: it has released the
lock, in a commit action or not; `fault`: somebody has accessed memory that is not allocated -/
inductive LogEntry (R A : Type) where
  | access (call : Nat)
  | release (call : Nat) (commit : Bool)
  | free (call : Nat)
  | exec (call : Nat) (start : R) (arg : A)
  | fault
  deriving DecidableEq

structure Pthreads (R A : Type) where
  mem : Nat → Option (ControlBlock R A)
  pc : ParentPc
  commitActions : List Nat
  undoActions : List Nat
  pcs : Nat → ChildPc R A
  calls : List (Call R A)
  attempt : Nat
  outcome : Nat → Option Bool
  decision : Nat → Decision
  log : List (LogEntry R A)

def pthreadsInit : Pthreads R A :=
  { mem := fun _ => none
    pc := .outside
    commitActions := []
    undoActions := []
    pcs := fun _ => .absent
    calls := []
    attempt := 0
    outcome := fun _ => none
    decision := fun _ => .pending
    log := [] }

namespace Pthreads

/-- an access through a pointer -/
def access (s : Pthreads R A) (block : Nat)
    (f : ControlBlock R A → Option (Pthreads R A)) : Option (Pthreads R A) :=
  match s.mem block with
  | some blk => f blk
  | none => some { s with log := s.log ++ [.fault] }

def setBlock (s : Pthreads R A) (block : Nat) (blk : Option (ControlBlock R A)) : Pthreads R A :=
  { s with mem := Function.update s.mem block blk }

def setPc (s : Pthreads R A) (id : Nat) (pc : ChildPc R A) : Pthreads R A :=
  { s with pcs := Function.update s.pcs id pc }

def decide (s : Pthreads R A) (id : Nat) (d : Decision) (e : LogEntry R A) : Pthreads R A :=
  { s with decision := Function.update s.decision id d, log := s.log ++ [e] }

/-- `x_pthread_create` of a retryable transaction up to `pthread_create`; nobody else knows the
block yet -/
def xPthreadCreate (s : Pthreads R A) (block : Nat) (start : R) (arg : A) : Pthreads R A :=
  { s.setBlock block (some ⟨true, some start, arg, s.calls.length⟩) with
    pc := .spawning block s.calls.length
    calls := s.calls ++ [⟨s.attempt, start, arg, false⟩]
    log := s.log ++ [.access s.calls.length] }

/-- `x_pthread_create` of an irrevocable transaction, and outside of transactions -/
def xPthreadCreateDirect (s : Pthreads R A) (start : R) (arg : A) : Pthreads R A :=
  { s.setPc s.calls.length (.direct start arg) with
    calls := s.calls ++ [⟨s.attempt, start, arg, true⟩] }

def nextAttempt (s : Pthreads R A) : Pthreads R A :=
  { s with pc := .running false, attempt := s.attempt + 1 }

def clear (s : Pthreads R A) : Pthreads R A :=
  { s with pc := .outside, commitActions := [], undoActions := [] }

/-- `x_pthread_create_commit` -/
def xPthreadCreateCommit (s : Pthreads R A) (block : Nat) (rest : List Nat) :
    Option (Pthreads R A) :=
  s.access block fun blk => some
    { (s.setBlock block (some { blk with startLock := false })).decide blk.call .committed
        (.release blk.call true) with pc := .committing rest }

/-- the first step of `x_pthread_create_undo`: `control_block->start = NULL` -/
def xPthreadCreateUndoClear (s : Pthreads R A) (retry : Bool) (block : Nat) (rest : List Nat) :
    Option (Pthreads R A) :=
  s.access block fun blk => some
    { (s.setBlock block (some { blk with start := none })).decide blk.call .cancelled
        (.access blk.call) with pc := .undoing retry (block :: rest) true }

/-- the second step of `x_pthread_create_undo`: the lock is released -/
def xPthreadCreateUndo (s : Pthreads R A) (retry : Bool) (block : Nat) (rest : List Nat) :
    Option (Pthreads R A) :=
  s.access block fun blk => some
    { (s.setBlock block (some { blk with startLock := false })).decide blk.call .aborted
        (.release blk.call false) with pc := .undoing retry rest false }

def parentStep (s : Pthreads R A) : Option (Pthreads R A) :=
  match s.pc with
  | .outside => none
  | .running _ => none
  | .spawning block call => some { s.setPc call (.entry block) with pc := .registeringCommit block }
  | .registeringCommit block => some
      { s with commitActions := s.commitActions ++ [block], pc := .registeringUndo block }
  | .registeringUndo block => some
      { s with undoActions := s.undoActions ++ [block], pc := .running false }
  | .committing (block :: rest) => s.xPthreadCreateCommit block rest
  | .committing [] => some s.clear
  | .undoing retry (block :: rest) false => s.xPthreadCreateUndoClear retry block rest
  | .undoing retry (block :: rest) true => s.xPthreadCreateUndo retry block rest
  | .undoing true [] _ => some s.clear.nextAttempt
  | .undoing false [] _ => some s.clear

/-- a step of `x_pthread_create_start_indirection`; a thread that was created directly runs its
start routine -/
def childStep (s : Pthreads R A) (id : Nat) : Option (Pthreads R A) :=
  match s.pcs id with
  | .absent => none
  | .entry block => s.access block fun blk => some (s.setPc id (.locking block blk.arg))
  | .locking block myarg => s.access block fun blk =>
      if blk.startLock then none
      else some ((s.setBlock block (some { blk with startLock := true })).setPc id
        (.loading block myarg))
  | .loading block myarg => s.access block fun blk =>
      some (s.setPc id (.freeing block myarg blk.start))
  | .freeing block myarg start => s.access block fun blk => some
      { (s.setBlock block none).setPc id (.starting myarg start) with
        log := s.log ++ [.free blk.call] }
  | .starting myarg (some start) => some
      { s.setPc id .done with log := s.log ++ [.exec id start myarg] }
  | .starting _ none => some (s.setPc id .done)
  | .direct start myarg => some
      { s.setPc id .done with log := s.log ++ [.exec id start myarg] }
  | .done => none

end Pthreads

inductive PthreadEvent (R A : Type) where
  | begin
  | irrevocable
  | xPthreadCreate (block : Nat) (start : R) (arg : A)
  | xPthreadCreateDirect (start : R) (arg : A)
  | commit
  | abort (retry : Bool)
  | parent
  | child (id : Nat)

def pthreadStep (s : Pthreads R A) : PthreadEvent R A → Option (Pthreads R A)
  | .begin => if s.pc = .outside then some s.nextAttempt else none
  | .irrevocable => if s.pc = .running false then some { s with pc := .running true } else none
  | .xPthreadCreate block start arg =>
    if s.pc = .running false ∧ s.mem block = none then some (s.xPthreadCreate block start arg)
    else none
  | .xPthreadCreateDirect start arg =>
    if s.pc = .running true ∨ s.pc = .outside then some (s.xPthreadCreateDirect start arg) else none
  | .commit =>
    if s.pc = .running false ∨ s.pc = .running true then some
      { s with pc := .committing s.commitActions
               outcome := Function.update s.outcome s.attempt (some true) }
    else none
  | .abort retry =>
    if s.pc = .running false then some
      { s with pc := .undoing retry s.undoActions.reverse false
               outcome := Function.update s.outcome s.attempt (some false) }
    else none
  | .parent => s.parentStep
  | .child id => s.childStep id

/-! ## the log -/

def EntryOk (calls : List (Call R A)) (before : List (LogEntry R A)) : LogEntry R A → Prop
  | .access id => .free id ∉ before
  | .release id _ => .free id ∉ before
  | .free id => .free id ∉ before
  | .exec id start arg => (∀ r a, .exec id r a ∉ before) ∧
      ∃ call, calls[id]? = some call ∧ start = call.start ∧ arg = call.arg ∧
        (call.direct = false → .release id true ∈ before)
  | .fault => False

def LogOk (calls : List (Call R A)) (log : List (LogEntry R A)) : Prop :=
  ∀ before e after, log = before ++ e :: after → EntryOk calls before e

theorem logOk_nil (calls : List (Call R A)) : LogOk calls [] := by
  intro before e after h
  cases before <;> cases h

theorem LogOk.snoc {calls : List (Call R A)} {log : List (LogEntry R A)} (h : LogOk calls log)
    {e : LogEntry R A} (he : EntryOk calls log e) : LogOk calls (log ++ [e]) := by
  intro before e' after heq
  rcases List.eq_nil_or_concat after with rfl | ⟨after', x, rfl⟩
  · obtain ⟨rfl, hlast⟩ := List.append_inj' heq rfl
    cases hlast
    exact he
  · have heq' : log ++ [e] = (before ++ e' :: after') ++ [x] := by
      rw [heq, List.concat_eq_append, List.append_assoc]
      rfl
    obtain ⟨rfl, _⟩ := List.append_inj' heq' rfl
    exact h before e' after' rfl

theorem LogOk.more {calls : List (Call R A)} {log : List (LogEntry R A)} (h : LogOk calls log)
    (call : Call R A) : LogOk (calls ++ [call]) log := by
  intro before e after heq
  have he := h before e after heq
  cases e with
  | exec id start arg =>
    obtain ⟨honce, c, hc, hrest⟩ := he
    refine ⟨honce, c, ?_, hrest⟩
    rw [List.getElem?_append_left (List.getElem?_eq_some_iff.mp hc).1]
    exact hc
  | _ => exact he

/-! ## the invariant -/

def Decision.decided : Decision → Bool
  | .pending => false
  | .cancelled => false
  | .committed => true
  | .aborted => true

def startOf (call : Call R A) : Decision → Option R
  | .pending => some call.start
  | .cancelled => none
  | .committed => some call.start
  | .aborted => none

/-- the block of a call; `held`: its thread has the lock -/
def blockOf (id : Nat) (call : Call R A) (d : Decision) (held : Bool) : ControlBlock R A :=
  ⟨!d.decided || held, startOf call d, call.arg, id⟩

def Executed (log : List (LogEntry R A)) (id : Nat) : Prop := ∃ r a, .exec id r a ∈ log

structure Waiting (s : Pthreads R A) (id : Nat) (call : Call R A) (block : Nat) (held : Bool) :
    Prop where
  retryable : call.direct = false
  block : s.mem block = some (blockOf id call (s.decision id) held)
  notFreed : .free id ∉ s.log
  notExecuted : ¬ Executed s.log id

def ThreadOk (s : Pthreads R A) (id : Nat) (call : Call R A) : ChildPc R A → Prop
  | .absent => ∃ block, s.pc = .spawning block id ∧ Waiting s id call block false
  | .entry block => Waiting s id call block false
  | .locking block myarg => Waiting s id call block false ∧ myarg = call.arg
  | .loading block myarg =>
    Waiting s id call block true ∧ (s.decision id).decided = true ∧ myarg = call.arg
  | .freeing block myarg start =>
    Waiting s id call block true ∧ (s.decision id).decided = true ∧ myarg = call.arg ∧
      start = startOf call (s.decision id)
  | .starting myarg start => call.direct = false ∧ (s.decision id).decided = true ∧
      .free id ∈ s.log ∧ ¬ Executed s.log id ∧ myarg = call.arg ∧
      start = startOf call (s.decision id)
  | .direct start myarg => call.direct = true ∧ ¬ Executed s.log id ∧ start = call.start ∧
      myarg = call.arg ∧ .free id ∉ s.log
  | .done => (call.direct = false → (s.decision id).decided = true ∧ .free id ∈ s.log) ∧
      (Executed s.log id ↔ call.direct = true ∨ s.decision id = .committed)

/-- the blocks that the parent will still access -/
def Pthreads.owed (s : Pthreads R A) : List Nat :=
  match s.pc with
  | .outside => []
  | .running _ => s.commitActions
  | .spawning block _ => s.commitActions ++ [block]
  | .registeringCommit block => s.commitActions ++ [block]
  | .registeringUndo _ => s.commitActions
  | .committing rest => rest
  | .undoing _ rest _ => rest

def owedDecision : ParentPc → Nat → Decision
  | .undoing _ (block :: _) true, b => if b = block then .cancelled else .pending
  | _, _ => .pending

theorem decided_owedDecision (pc : ParentPc) (b : Nat) : (owedDecision pc b).decided = false := by
  unfold owedDecision
  split
  · split <;> rfl
  · rfl

def ActionsOk (s : Pthreads R A) : Prop :=
  match s.pc with
  | .outside => s.commitActions = [] ∧ s.undoActions = []
  | .registeringUndo block => s.commitActions = s.undoActions ++ [block]
  | .committing _ => True
  | .undoing _ _ _ => True
  | _ => s.commitActions = s.undoActions

def outcomeOf : ParentPc → Option Bool
  | .committing _ => some true
  | .undoing _ _ _ => some false
  | _ => none

structure PthreadInv (s : Pthreads R A) : Prop where
  threads : ∀ id call, s.calls[id]? = some call → ThreadOk s id call (s.pcs id)
  beyond : ∀ id, s.calls.length ≤ id → s.pcs id = .absent ∧ s.decision id = .pending ∧
    .free id ∉ s.log ∧ ¬ Executed s.log id
  known : ∀ b blk, s.mem b = some blk → blk.call < s.calls.length
  unique : ∀ b b' blk blk', s.mem b = some blk → s.mem b' = some blk' → blk.call = blk'.call → b = b'
  nodup : s.owed.Nodup
  owed : ∀ b ∈ s.owed, ∃ blk call, s.mem b = some blk ∧ s.calls[blk.call]? = some call ∧
    call.direct = false ∧ call.attempt = s.attempt ∧ s.decision blk.call = owedDecision s.pc b
  undecided : ∀ id call, s.calls[id]? = some call → call.direct = false →
    (s.decision id).decided = false → ∃ b ∈ s.owed, ∃ blk, s.mem b = some blk ∧ blk.call = id
  lists : ActionsOk s
  outcome : ∀ id call, s.calls[id]? = some call → call.direct = false →
    (s.decision id = .committed → s.outcome call.attempt = some true) ∧
      (s.decision id = .cancelled ∨ s.decision id = .aborted → s.outcome call.attempt = some false)
  current : s.pc ≠ .outside → s.outcome s.attempt = outcomeOf s.pc
  future : ∀ a, s.attempt < a → s.outcome a = none
  spawning : ∀ b id, s.pc = .spawning b id → s.pcs id = .absent ∧ id < s.calls.length
  released : ∀ id, s.decision id = .committed → .release id true ∈ s.log
  log : LogOk s.calls s.log

theorem pthreadInv_init : PthreadInv (pthreadsInit : Pthreads R A) := by
  refine ⟨fun id call h => ?_, fun id _ => ⟨rfl, rfl, ?_, ?_⟩, fun b blk h => ?_,
    fun b b' blk blk' h => ?_, List.nodup_nil, fun b hb => ?_, fun id call h => ?_, ⟨rfl, rfl⟩,
    fun id call h => ?_, fun h => absurd rfl h, fun _ _ => rfl, fun b id h => ?_,
    fun id h => ?_, logOk_nil _⟩
  · simp [pthreadsInit] at h
  · exact List.not_mem_nil
  · rintro ⟨r, a, h⟩
    exact List.not_mem_nil h
  · cases h
  · cases h
  · cases hb
  · simp [pthreadsInit] at h
  · simp [pthreadsInit] at h
  · cases h
  · cases h

/-! ## what does not concern a thread -/

/-- from `s` to `s'` nothing changes for the thread of call `id` -/
structure ThreadFrame (s s' : Pthreads R A) (id : Nat) : Prop where
  mem : ∀ b blk, s.mem b = some blk → blk.call = id → s'.mem b = some blk
  pcs : s'.pcs id = s.pcs id
  decision : s'.decision id = s.decision id
  freed : .free id ∈ s'.log ↔ .free id ∈ s.log
  executed : Executed s'.log id ↔ Executed s.log id
  absent : ∀ b, s.pc = .spawning b id → s.pcs id = .absent → s'.pc = s.pc

section
variable {s s' : Pthreads R A} {id : Nat} {call : Call R A}

theorem Waiting.frame {block : Nat} {held : Bool} (h : Waiting s id call block held)
    (hf : ThreadFrame s s' id) : Waiting s' id call block held := by
  refine ⟨h.retryable, ?_, fun hm => h.notFreed (hf.freed.mp hm),
    fun hm => h.notExecuted (hf.executed.mp hm)⟩
  rw [hf.decision]
  exact hf.mem _ _ h.block rfl

theorem ThreadOk.frame (h : ThreadOk s id call (s.pcs id)) (hf : ThreadFrame s s' id) :
    ThreadOk s' id call (s'.pcs id) := by
  rw [hf.pcs]
  cases hpc : s.pcs id with
  | absent =>
    rw [hpc] at h
    obtain ⟨block, hsp, hw⟩ := h
    exact ⟨block, (hf.absent block hsp hpc).trans hsp, hw.frame hf⟩
  | entry block =>
    rw [hpc] at h
    exact Waiting.frame h hf
  | locking block myarg =>
    rw [hpc] at h
    exact ⟨h.1.frame hf, h.2⟩
  | loading block myarg =>
    rw [hpc] at h
    exact ⟨h.1.frame hf, hf.decision.symm ▸ h.2.1, h.2.2⟩
  | freeing block myarg start =>
    rw [hpc] at h
    exact ⟨h.1.frame hf, hf.decision.symm ▸ h.2.1, h.2.2.1, hf.decision.symm ▸ h.2.2.2⟩
  | starting myarg start =>
    rw [hpc] at h
    obtain ⟨h1, h2, h3, h4, h5, h6⟩ := h
    exact ⟨h1, hf.decision.symm ▸ h2, hf.freed.mpr h3, fun hx => h4 (hf.executed.mp hx), h5,
      hf.decision.symm ▸ h6⟩
  | direct start myarg =>
    rw [hpc] at h
    obtain ⟨h1, h2, h3, h4, h5⟩ := h
    exact ⟨h1, fun hx => h2 (hf.executed.mp hx), h3, h4, fun hx => h5 (hf.freed.mp hx)⟩
  | done =>
    rw [hpc] at h
    refine ⟨fun hd => ⟨hf.decision.symm ▸ (h.1 hd).1, hf.freed.mpr (h.1 hd).2⟩, ?_⟩
    rw [hf.executed, hf.decision]
    exact h.2

end

theorem free_mem_snoc {log : List (LogEntry R A)} {e : LogEntry R A} {id : Nat}
    (he : e ≠ .free id) : .free id ∈ log ++ [e] ↔ .free id ∈ log := by
  rw [List.mem_append, List.mem_singleton]
  exact ⟨fun h => h.resolve_right fun hc => he hc.symm, .inl⟩

theorem executed_snoc {log : List (LogEntry R A)} {e : LogEntry R A} {id : Nat}
    (he : ∀ r a, e ≠ .exec id r a) : Executed (log ++ [e]) id ↔ Executed log id := by
  constructor
  · rintro ⟨r, a, h⟩
    rcases List.mem_append.mp h with h | h
    · exact ⟨r, a, h⟩
    · exact absurd (List.mem_singleton.mp h).symm (he r a)
  · rintro ⟨r, a, h⟩
    exact ⟨r, a, List.mem_append_left _ h⟩

/-! ## steps of the parent -/

section
variable {s : Pthreads R A}

theorem PthreadInv.listsAt (h : PthreadInv s) {pc : ParentPc} (hp : s.pc = pc) :
    ActionsOk { s with pc := pc } := by
  subst hp
  exact h.lists

theorem PthreadInv.currentAt (h : PthreadInv s) {pc : ParentPc} (hp : s.pc = pc)
    (hne : pc ≠ .outside) : s.outcome s.attempt = outcomeOf pc := by
  subst hp
  exact h.current hne

/-- the parent goes on without touching memory or threads -/
theorem PthreadInv.retarget (h : PthreadInv s) {pc : ParentPc} {ca ua : List Nat} {att : Nat}
    {oc : Nat → Option Bool} (hsp : ∀ b i, s.pc ≠ .spawning b i)
    (hsp' : ∀ b i, pc ≠ .spawning b i)
    (hperm : ({ s with pc := pc, commitActions := ca } : Pthreads R A).owed.Perm s.owed)
    (hdec : ∀ b ∈ s.owed, owedDecision pc b = owedDecision s.pc b ∧ att = s.attempt)
    (hlists : ActionsOk
      ({ s with pc := pc, commitActions := ca, undoActions := ua } : Pthreads R A))
    (hout : ∀ a v, s.outcome a = some v → oc a = some v)
    (hcur : pc ≠ .outside → oc att = outcomeOf pc) (hfut : ∀ a, att < a → oc a = none) :
    PthreadInv { s with pc := pc, commitActions := ca, undoActions := ua, attempt := att,
                        outcome := oc } := by
  refine ⟨fun id call hc => ?_, h.beyond, h.known, h.unique, ?_, fun b hb => ?_,
    fun id call hc hd hu => ?_, hlists, fun id call hc hd => ?_, hcur, hfut, fun b i hb => absurd hb (hsp' b i),
    h.released, h.log⟩
  · exact (h.threads id call hc).frame ⟨fun _ _ hm _ => hm, rfl, rfl, Iff.rfl, Iff.rfl,
      fun b hb => absurd hb (hsp b id)⟩
  · exact hperm.nodup_iff.mpr h.nodup
  · have hb' : b ∈ s.owed := hperm.mem_iff.mp hb
    obtain ⟨blk, call, h1, h2, h3, h4, h5⟩ := h.owed b hb'
    obtain ⟨hd, ha⟩ := hdec b hb'
    exact ⟨blk, call, h1, h2, h3, h4.trans ha.symm, h5.trans hd.symm⟩
  · obtain ⟨b, hb, hrest⟩ := h.undecided id call hc hd hu
    exact ⟨b, hperm.mem_iff.mpr hb, hrest⟩
  · obtain ⟨h1, h2⟩ := h.outcome id call hc hd
    exact ⟨fun hx => hout _ _ (h1 hx), fun hx => hout _ _ (h2 hx)⟩

theorem outcome_update {oc : Nat → Option Bool} {att : Nat} (h : oc att = none) (w : Option Bool) :
    ∀ a v, oc a = some v → Function.update oc att w a = some v := by
  intro a v ha
  by_cases he : a = att
  · rw [he, h] at ha
    cases ha
  · rw [Function.update_of_ne he]
    exact ha

theorem future_update {oc : Nat → Option Bool} {att : Nat} (h : ∀ a, att < a → oc a = none)
    (w : Option Bool) : ∀ a, att < a → Function.update oc att w a = none := by
  intro a ha
  rw [Function.update_of_ne (by omega)]
  exact h a ha

theorem PthreadInv.nextAttempt (h : PthreadInv s) (hp : s.pc = .outside) :
    PthreadInv s.nextAttempt := by
  have hl : s.commitActions = [] ∧ s.undoActions = [] := h.listsAt hp
  refine h.retarget (fun b i hc => by rw [hp] at hc; cases hc) (fun b i hc => by cases hc) ?_ ?_ (hl.1.trans hl.2.symm)
    (fun _ _ hv => hv) (fun _ => h.future _ (Nat.lt_succ_self _)) fun a ha =>
      h.future a (Nat.lt_of_succ_lt ha)
  · simp only [Pthreads.owed, hp, hl.1]
    exact List.Perm.refl _
  · intro b hb
    simp only [Pthreads.owed, hp] at hb
    cases hb

theorem PthreadInv.clear (h : PthreadInv s) (hnil : s.owed = [])
    (hsp : ∀ b i, s.pc ≠ .spawning b i) : PthreadInv s.clear := by
  refine h.retarget hsp (fun b i hc => by cases hc) ?_ ?_ ⟨rfl, rfl⟩ (fun _ _ hv => hv) (fun hc => absurd rfl hc) h.future
  · rw [hnil]
    exact List.Perm.refl _
  · intro b hb
    rw [hnil] at hb
    cases hb

theorem PthreadInv.irrevocable (h : PthreadInv s) (hp : s.pc = .running false) :
    PthreadInv { s with pc := .running true } := by
  have hl : s.commitActions = s.undoActions := h.listsAt hp
  refine h.retarget (fun b i hc => by rw [hp] at hc; cases hc) (fun b i hc => by cases hc) ?_ ?_ hl (fun _ _ hv => hv) ?_
    h.future
  · simp only [Pthreads.owed, hp]
    exact List.Perm.refl _
  · intro b _
    rw [hp]
    exact ⟨rfl, rfl⟩
  · have hcur := h.currentAt hp ParentPc.noConfusion
    exact fun _ => hcur

theorem PthreadInv.commit (h : PthreadInv s) {irr : Bool} (hp : s.pc = .running irr) :
    PthreadInv { s with pc := .committing s.commitActions
                        outcome := Function.update s.outcome s.attempt (some true) } := by
  have hnone : s.outcome s.attempt = none := h.currentAt hp ParentPc.noConfusion
  refine h.retarget (fun b i hc => by rw [hp] at hc; cases hc) (fun b i hc => by cases hc) ?_ ?_ trivial
    (outcome_update hnone _) (fun _ => Function.update_self ..) (future_update h.future _)
  · simp only [Pthreads.owed, hp]
    exact List.Perm.refl _
  · intro b _
    rw [hp]
    exact ⟨rfl, rfl⟩

theorem PthreadInv.abort (h : PthreadInv s) (hp : s.pc = .running false) (retry : Bool) :
    PthreadInv { s with pc := .undoing retry s.undoActions.reverse false
                        outcome := Function.update s.outcome s.attempt (some false) } := by
  have hnone : s.outcome s.attempt = none := h.currentAt hp ParentPc.noConfusion
  have hl : s.commitActions = s.undoActions := h.listsAt hp
  refine h.retarget (fun b i hc => by rw [hp] at hc; cases hc) (fun b i hc => by cases hc) ?_ ?_ trivial
    (outcome_update hnone _) (fun _ => Function.update_self ..) (future_update h.future _)
  · simp only [Pthreads.owed, hp, hl]
    exact List.reverse_perm _
  · intro b _
    rw [hp]
    cases s.undoActions.reverse <;> exact ⟨rfl, rfl⟩

theorem PthreadInv.registerCommit (h : PthreadInv s) {block : Nat}
    (hp : s.pc = .registeringCommit block) :
    PthreadInv { s with commitActions := s.commitActions ++ [block]
                        pc := .registeringUndo block } := by
  have hl : s.commitActions = s.undoActions := h.listsAt hp
  refine h.retarget (fun b i hc => by rw [hp] at hc; cases hc) (fun b i hc => by cases hc) ?_ ?_
    (congrArg (· ++ [block]) hl) (fun _ _ hv => hv) ?_ h.future
  · simp only [Pthreads.owed, hp]
    exact List.Perm.refl _
  · intro b _
    rw [hp]
    exact ⟨rfl, rfl⟩
  · have hcur := h.currentAt hp ParentPc.noConfusion
    exact fun _ => hcur

theorem PthreadInv.registerUndo (h : PthreadInv s) {block : Nat}
    (hp : s.pc = .registeringUndo block) :
    PthreadInv { s with undoActions := s.undoActions ++ [block], pc := .running false } := by
  have hl : s.commitActions = s.undoActions ++ [block] := h.listsAt hp
  refine h.retarget (fun b i hc => by rw [hp] at hc; cases hc) (fun b i hc => by cases hc) ?_ ?_
    hl (fun _ _ hv => hv) ?_ h.future
  · simp only [Pthreads.owed, hp]
    exact List.Perm.refl _
  · intro b _
    rw [hp]
    exact ⟨rfl, rfl⟩
  · have hcur := h.currentAt hp ParentPc.noConfusion
    exact fun _ => hcur

/-- `pthread_create` -/
theorem PthreadInv.spawn (h : PthreadInv s) {block id : Nat} (hp : s.pc = .spawning block id) :
    PthreadInv { s.setPc id (.entry block) with pc := .registeringCommit block } := by
  have hl : s.commitActions = s.undoActions := h.listsAt hp
  obtain ⟨habs, hlt⟩ := h.spawning block id hp
  refine ⟨fun id' call hc => ?_, fun id' hle => ?_, h.known, h.unique, ?_, fun b hb => ?_,
    fun id' call hc hd hu => ?_, hl, h.outcome, fun _ => ?_, h.future, fun b i hb => ?_, h.released,
    h.log⟩
  · by_cases he : id' = id
    · subst he
      have ht := h.threads id' call hc
      rw [habs] at ht
      obtain ⟨b, hb, hw⟩ := ht
      rw [hp] at hb
      cases hb
      show ThreadOk _ id' call (Function.update s.pcs id' _ id')
      rw [Function.update_self]
      exact ⟨hw.retryable, hw.block, hw.notFreed, hw.notExecuted⟩
    · refine (h.threads id' call hc).frame ⟨fun _ _ hm _ => hm, Function.update_of_ne he _ _, rfl,
        Iff.rfl, Iff.rfl, fun b hb => ?_⟩
      rw [hp] at hb
      cases hb
      exact absurd rfl he
  · have hne : id' ≠ id := fun he => absurd hlt (Nat.not_lt.mpr (he ▸ hle))
    obtain ⟨h1, h2⟩ := h.beyond id' hle
    exact ⟨(Function.update_of_ne hne _ _).trans h1, h2⟩
  · have hnd := h.nodup
    rwa [Pthreads.owed, hp] at hnd
  · have hb' : b ∈ s.owed := by rwa [Pthreads.owed, hp]
    have hbo := h.owed b hb'
    rwa [hp] at hbo
  · have hbo := h.undecided id' call hc hd hu
    rwa [Pthreads.owed, hp] at hbo
  · have hcur := h.currentAt hp ParentPc.noConfusion
    exact hcur
  · cases hb

/-! ## calls -/

theorem getElem?_snoc {calls : List (Call R A)} {call c : Call R A} {id : Nat}
    (h : (calls ++ [call])[id]? = some c) :
    calls[id]? = some c ∨ (id = calls.length ∧ c = call) := by
  by_cases hlt : id < calls.length
  · rw [List.getElem?_append_left hlt] at h
    exact .inl h
  · rw [List.getElem?_append_right (Nat.not_lt.mp hlt)] at h
    obtain ⟨h0, hc⟩ := List.getElem?_eq_some_iff.mp h
    have hid : id - calls.length = 0 := Nat.lt_one_iff.mp h0
    refine .inr ⟨by omega, ?_⟩
    rw [← hc]
    simp [hid]

theorem getElem?_of_snoc {calls : List (Call R A)} {call c : Call R A} {id : Nat}
    (h : calls[id]? = some c) : (calls ++ [call])[id]? = some c := by
  rw [List.getElem?_append_left (List.getElem?_eq_some_iff.mp h).1]
  exact h

theorem ne_length {calls : List (Call R A)} {c : Call R A} {id : Nat} (h : calls[id]? = some c) :
    id ≠ calls.length :=
  Nat.ne_of_lt (List.getElem?_eq_some_iff.mp h).1

/-- `x_pthread_create` in a retryable transaction -/
theorem PthreadInv.create (h : PthreadInv s) (hp : s.pc = .running false) {block : Nat}
    (hm : s.mem block = none) (start : R) (arg : A) :
    PthreadInv (s.xPthreadCreate block start arg) := by
  have hl : s.commitActions = s.undoActions := h.listsAt hp
  have howed : s.owed = s.commitActions := by rw [Pthreads.owed, hp]
  obtain ⟨b1, b2, b3, b4⟩ := h.beyond s.calls.length (Nat.le_refl _)
  have hold : ∀ b blk, s.mem b = some blk → b ≠ block := by
    rintro b blk hb rfl
    rw [hm] at hb
    cases hb
  have hmem : ∀ b ≠ block, (s.xPthreadCreate block start arg).mem b = s.mem b := fun b hb =>
    Function.update_of_ne hb _ _
  have hnew : (s.xPthreadCreate block start arg).mem block
      = some ⟨true, some start, arg, s.calls.length⟩ := Function.update_self ..
  have hfree : ∀ id, .free id ∈ s.log ++ [.access s.calls.length] ↔ .free id ∈ s.log := fun id =>
    free_mem_snoc (by rintro ⟨⟩)
  have hexec : ∀ id, Executed (s.log ++ [.access s.calls.length]) id ↔ Executed s.log id := fun id =>
    executed_snoc (by rintro r a ⟨⟩)
  have hframe : ∀ id ≠ s.calls.length, ThreadFrame s (s.xPthreadCreate block start arg) id := by
    refine fun id _ => ⟨fun b blk hb _ => ?_, rfl, rfl, hfree id, hexec id, fun b hb => ?_⟩
    · rw [hmem b (hold b blk hb)]
      exact hb
    · rw [hp] at hb
      cases hb
  refine ⟨fun id call hc => ?_, fun id hle => ?_, fun b blk hb => ?_, fun b b' blk blk' hb hb' he => ?_,
    ?_, fun b hb => ?_, fun id call hc hd hu => ?_, hl, fun id call hc hd => ?_, fun _ => ?_,
    h.future, fun b id hb => ?_, fun id hx => List.mem_append_left _ (h.released id hx), ?_⟩
  · rcases getElem?_snoc hc with hc | ⟨rfl, rfl⟩
    · exact (h.threads id call hc).frame (hframe id (ne_length hc))
    · show ThreadOk _ _ _ (s.pcs s.calls.length)
      rw [b1]
      refine ⟨block, rfl, rfl, ?_, fun hx => b3 ((hfree _).mp hx), fun hx => b4 ((hexec _).mp hx)⟩
      rw [hnew]
      show _ = some (blockOf _ _ (s.decision s.calls.length) false)
      rw [b2]
      rfl
  · have hle' : s.calls.length + 1 ≤ id := by
      simpa [Pthreads.xPthreadCreate] using hle
    obtain ⟨h1, h2, h3, h4⟩ := h.beyond id (Nat.le_of_succ_le hle')
    exact ⟨h1, h2, fun hx => h3 ((hfree id).mp hx), fun hx => h4 ((hexec id).mp hx)⟩
  · show blk.call < (s.calls ++ [_]).length
    rw [List.length_append, List.length_singleton]
    by_cases he : b = block
    · rw [he, hnew] at hb
      cases hb
      exact Nat.lt_succ_self _
    · rw [hmem b he] at hb
      exact Nat.lt_succ_of_lt (h.known b blk hb)
  · by_cases h1 : b = block
    · by_cases h2 : b' = block
      · rw [h1, h2]
      · rw [h1, hnew] at hb
        rw [hmem b' h2] at hb'
        cases hb
        exact absurd he.symm (Nat.ne_of_lt (h.known b' blk' hb'))
    · by_cases h2 : b' = block
      · rw [h2, hnew] at hb'
        rw [hmem b h1] at hb
        cases hb'
        exact absurd he (Nat.ne_of_lt (h.known b blk hb))
      · rw [hmem b h1] at hb
        rw [hmem b' h2] at hb'
        exact h.unique b b' blk blk' hb hb' he
  · show (s.commitActions ++ [block]).Nodup
    rw [← howed]
    refine List.Nodup.append h.nodup (List.nodup_singleton _) ?_
    intro b hb hb'
    obtain ⟨blk, _, hmb, _⟩ := h.owed b hb
    exact hold b blk hmb (List.mem_singleton.mp hb')
  · have hb' : b ∈ s.commitActions ++ [block] := hb
    rcases List.mem_append.mp hb' with hb' | hb'
    · rw [← howed] at hb'
      obtain ⟨blk, call, h1, h2, h3, h4, h5⟩ := h.owed b hb'
      rw [hp] at h5
      refine ⟨blk, call, ?_, getElem?_of_snoc h2, h3, h4, h5⟩
      rw [hmem b (hold b blk h1)]
      exact h1
    · rw [List.mem_singleton.mp hb']
      refine ⟨_, ⟨s.attempt, start, arg, false⟩, hnew, ?_, rfl, rfl, b2⟩
      show (s.calls ++ [_])[s.calls.length]? = _
      simp
  · show ∃ b ∈ s.commitActions ++ [block], _
    rcases getElem?_snoc hc with hc | ⟨rfl, rfl⟩
    · obtain ⟨b, hb, blk, hmb, hid⟩ := h.undecided id call hc hd hu
      rw [howed] at hb
      refine ⟨b, List.mem_append_left _ hb, blk, ?_, hid⟩
      rw [hmem b (hold b blk hmb)]
      exact hmb
    · exact ⟨block, List.mem_append_right _ (List.mem_singleton.mpr rfl), _, hnew, rfl⟩
  · rcases getElem?_snoc hc with hc | ⟨rfl, rfl⟩
    · exact h.outcome id call hc hd
    · show (s.decision _ = _ → _) ∧ (s.decision _ = _ ∨ s.decision _ = _ → _)
      rw [b2]
      exact ⟨fun hx => (by cases hx), fun hx => (by rcases hx with hx | hx <;> cases hx)⟩
  · have hcur := h.currentAt hp ParentPc.noConfusion
    exact hcur
  · cases hb
    refine ⟨b1, ?_⟩
    show s.calls.length < (s.calls ++ [_]).length
    simp
  · exact (h.log.more _).snoc b3

/-- `x_pthread_create` in an irrevocable transaction, or outside -/
theorem PthreadInv.createDirect (h : PthreadInv s) (hp : s.pc = .running true ∨ s.pc = .outside)
    (start : R) (arg : A) : PthreadInv (s.xPthreadCreateDirect start arg) := by
  obtain ⟨b1, b2, b3, b4⟩ := h.beyond s.calls.length (Nat.le_refl _)
  have hsp : ∀ b i, s.pc ≠ .spawning b i := by
    intro b i hc
    rcases hp with hp | hp <;> rw [hp] at hc <;> cases hc
  refine ⟨fun id call hc => ?_, fun id hle => ?_, fun b blk hb => ?_, h.unique, h.nodup,
    fun b hb => ?_, fun id call hc hd hu => ?_, h.lists, fun id call hc hd => ?_, h.current,
    h.future, fun b id hb => absurd hb (hsp b id), h.released, h.log.more _⟩
  · show ThreadOk _ _ _ (Function.update s.pcs s.calls.length _ id)
    rcases getElem?_snoc hc with hc | ⟨rfl, rfl⟩
    · exact (h.threads id call hc).frame ⟨fun _ _ hm _ => hm,
        Function.update_of_ne (ne_length hc) _ _, rfl, Iff.rfl, Iff.rfl,
        fun b hb => absurd hb (hsp b id)⟩
    · rw [Function.update_self]
      exact ⟨rfl, b4, rfl, rfl, b3⟩
  · have hle' : s.calls.length + 1 ≤ id := by
      simpa [Pthreads.xPthreadCreateDirect] using hle
    obtain ⟨h1, h2⟩ := h.beyond id (Nat.le_of_succ_le hle')
    exact ⟨(Function.update_of_ne (by omega) _ _).trans h1, h2⟩
  · show blk.call < (s.calls ++ [_]).length
    rw [List.length_append, List.length_singleton]
    exact Nat.lt_succ_of_lt (h.known b blk hb)
  · obtain ⟨blk, call, h1, h2, hrest⟩ := h.owed b hb
    exact ⟨blk, call, h1, getElem?_of_snoc h2, hrest⟩
  · rcases getElem?_snoc hc with hc | ⟨rfl, rfl⟩
    · exact h.undecided id call hc hd hu
    · cases hd
  · rcases getElem?_snoc hc with hc | ⟨rfl, rfl⟩
    · exact h.outcome id call hc hd
    · cases hd

/-! ## decisions -/

/-- the thread of an owed block has not got the lock -/
theorem PthreadInv.waiting (h : PthreadInv s) (hsp : ∀ b i, s.pc ≠ .spawning b i) {b : Nat}
    {blk : ControlBlock R A} {call : Call R A} (hm : s.mem b = some blk)
    (hc : s.calls[blk.call]? = some call) (hd : call.direct = false)
    (hu : (s.decision blk.call).decided = false) :
    Waiting s blk.call call b false ∧
      (s.pcs blk.call = .entry b ∨ s.pcs blk.call = .locking b call.arg) := by
  have hself : ∀ block held, Waiting s blk.call call block held → block = b := fun block held hw =>
    h.unique _ _ _ _ hw.block hm rfl
  have ht := h.threads _ call hc
  cases hpc : s.pcs blk.call with
  | absent =>
    rw [hpc] at ht
    obtain ⟨block, hb, _⟩ := ht
    exact absurd hb (hsp _ _)
  | entry block =>
    rw [hpc] at ht
    have hw : Waiting s blk.call call block false := ht
    obtain rfl := hself _ _ hw
    exact ⟨hw, .inl rfl⟩
  | locking block myarg =>
    rw [hpc] at ht
    obtain ⟨hw, rfl⟩ := ht
    obtain rfl := hself _ _ hw
    exact ⟨hw, .inr rfl⟩
  | loading block myarg =>
    rw [hpc] at ht
    exact absurd (hu.symm.trans ht.2.1) Bool.false_ne_true
  | freeing block myarg start =>
    rw [hpc] at ht
    exact absurd (hu.symm.trans ht.2.1) Bool.false_ne_true
  | starting myarg start =>
    rw [hpc] at ht
    exact absurd (hu.symm.trans ht.2.1) Bool.false_ne_true
  | direct start myarg =>
    rw [hpc] at ht
    exact absurd (hd.symm.trans ht.1) Bool.false_ne_true
  | done =>
    rw [hpc] at ht
    exact absurd (hu.symm.trans (ht.1 hd).1) Bool.false_ne_true

def LogEntry.ofParent (e : LogEntry R A) (id : Nat) : Prop :=
  e = .access id ∨ ∃ c, e = .release id c

/-- **A step of a commit or undo action** on the block `b` of a call. -/
theorem PthreadInv.decide (h : PthreadInv s) (hsp : ∀ b i, s.pc ≠ .spawning b i) {b : Nat}
    {blk : ControlBlock R A} {call : Call R A} (hm : s.mem b = some blk)
    (hc : s.calls[blk.call]? = some call) (hd : call.direct = false)
    (hu : (s.decision blk.call).decided = false) {d : Decision} {e : LogEntry R A}
    (he : e.ofParent blk.call) {pc : ParentPc} {s' : Pthreads R A}
    (hs' : s' = { (s.setBlock b (some (blockOf blk.call call d false))).decide blk.call d e with
      pc := pc })
    (hsp' : ∀ b i, pc ≠ .spawning b i) (hnd : s'.owed.Nodup)
    (hsub : ∀ b' ∈ s'.owed, b' ∈ s.owed ∧
      if b' = b then d = owedDecision pc b' else owedDecision pc b' = owedDecision s.pc b')
    (hkeep : ∀ b' ∈ s.owed, b' ≠ b ∨ d.decided = false → b' ∈ s'.owed) (hb : b ∈ s.owed)
    (hlists : ActionsOk s')
    (hout : (d = .committed → s.outcome call.attempt = some true) ∧
      (d = .cancelled ∨ d = .aborted → s.outcome call.attempt = some false))
    (hcur : s.outcome s.attempt = outcomeOf pc)
    (hrel : d = .committed → e = .release blk.call true) : PthreadInv s' := by
  obtain ⟨hw, hpcs⟩ := h.waiting hsp hm hc hd hu
  have hmem : ∀ b' ≠ b, s'.mem b' = s.mem b' := fun b' hb' => by
    rw [hs']
    exact Function.update_of_ne hb' _ _
  have hnew : s'.mem b = some (blockOf blk.call call d false) := by
    rw [hs']
    exact Function.update_self ..
  have hdec : ∀ id ≠ blk.call, s'.decision id = s.decision id := fun id hid => by
    rw [hs']
    exact Function.update_of_ne hid _ _
  have hdnew : s'.decision blk.call = d := by
    rw [hs']
    exact Function.update_self ..
  have hlog : s'.log = s.log ++ [e] := by rw [hs']; rfl
  have hfree : ∀ id, .free id ∈ s'.log ↔ .free id ∈ s.log := fun id => by
    rw [hlog]
    refine free_mem_snoc ?_
    rcases he with rfl | ⟨c, rfl⟩ <;> rintro ⟨⟩
  have hexec : ∀ id, Executed s'.log id ↔ Executed s.log id := fun id => by
    rw [hlog]
    refine executed_snoc ?_
    rcases he with rfl | ⟨c, rfl⟩ <;> rintro r a ⟨⟩
  have hcalls : s'.calls = s.calls := by rw [hs']; rfl
  have hpcs' : s'.pcs = s.pcs := by rw [hs']; rfl
  have hatt : s'.attempt = s.attempt := by rw [hs']; rfl
  have houtc : s'.outcome = s.outcome := by rw [hs']; rfl
  have hpc : s'.pc = pc := by rw [hs']
  have hother : ∀ b' blk', s.mem b' = some blk' → blk'.call ≠ blk.call → s'.mem b' = some blk' := by
    intro b' blk' hm' hne
    rw [hmem b' ?_, hm']
    rintro rfl
    rw [hm] at hm'
    cases hm'
    exact hne rfl
  refine ⟨fun id c hc' => ?_, fun id hle => ?_, fun b' blk' hm' => ?_,
    fun b₁ b₂ blk₁ blk₂ h₁ h₂ heq => ?_, hnd, fun b' hb' => ?_, fun id c hc' hd' hu' => ?_, hlists,
    fun id c hc' hd' => ?_, fun _ => ?_, fun a ha => ?_, fun b' i hb' => ?_, fun id hx => ?_, ?_⟩
  · rw [hcalls] at hc'
    by_cases hid : id = blk.call
    · subst hid
      obtain rfl : call = c := Option.some.inj (hc.symm.trans hc')
      have hw' : Waiting s' blk.call call b false := by
        refine ⟨hd, ?_, fun hx => hw.notFreed ((hfree _).mp hx),
          fun hx => hw.notExecuted ((hexec _).mp hx)⟩
        rw [hdnew]
        exact hnew
      rw [hpcs']
      rcases hpcs with hx | hx
      · rw [hx]
        exact hw'
      · rw [hx]
        exact ⟨hw', rfl⟩
    · refine (h.threads id c hc').frame ⟨fun b' blk' hm' hcall => hother b' blk' hm' ?_, ?_, hdec id hid,
        hfree id, hexec id, fun b' hb' => absurd hb' (hsp _ _)⟩
      · rw [hcall]
        exact hid
      · rw [hpcs']
  · rw [hcalls] at hle
    have hid : id ≠ blk.call := by
      rintro rfl
      exact absurd (List.getElem?_eq_some_iff.mp hc).1 (Nat.not_lt.mpr hle)
    obtain ⟨h1, h2, h3, h4⟩ := h.beyond id hle
    exact ⟨by rw [hpcs', h1], (hdec id hid).trans h2, fun hx => h3 ((hfree id).mp hx),
      fun hx => h4 ((hexec id).mp hx)⟩
  · rw [hcalls]
    by_cases hb' : b' = b
    · rw [hb', hnew] at hm'
      cases hm'
      exact h.known b blk hm
    · rw [hmem b' hb'] at hm'
      exact h.known b' blk' hm'
  · -- the block that has been written belongs to the same call as before
    have hback : ∀ b' blk', s'.mem b' = some blk' → ∃ blk₀, s.mem b' = some blk₀ ∧
        blk₀.call = blk'.call := by
      intro b' blk' hm'
      by_cases hb' : b' = b
      · rw [hb', hnew] at hm'
        cases hm'
        exact ⟨blk, hb' ▸ hm, rfl⟩
      · rw [hmem b' hb'] at hm'
        exact ⟨blk', hm', rfl⟩
    obtain ⟨c₁, hc₁, he₁⟩ := hback _ _ h₁
    obtain ⟨c₂, hc₂, he₂⟩ := hback _ _ h₂
    exact h.unique _ _ _ _ hc₁ hc₂ (he₁.trans (heq.trans he₂.symm))
  · obtain ⟨hin, hdb⟩ := hsub b' hb'
    obtain ⟨blk', c, h1, h2, h3, h4, h5⟩ := h.owed b' hin
    rw [hcalls, hatt, hpc]
    by_cases heq : b' = b
    · rw [if_pos heq] at hdb
      subst heq
      obtain rfl : blk = blk' := Option.some.inj (hm.symm.trans h1)
      exact ⟨_, c, hnew, h2, h3, h4, hdnew.trans hdb⟩
    · rw [if_neg heq] at hdb
      have hne : blk'.call ≠ blk.call := fun hcall => heq (h.unique _ _ _ _ h1 hm hcall)
      exact ⟨blk', c, hother b' blk' h1 hne, h2, h3, h4, (hdec _ hne).trans (h5.trans hdb.symm)⟩
  · rw [hcalls] at hc'
    by_cases hid : id = blk.call
    · subst hid
      rw [hdnew] at hu'
      exact ⟨b, hkeep b hb (.inr hu'), _, hnew, rfl⟩
    · rw [hdec id hid] at hu'
      obtain ⟨b', hb', blk', hm', hcall⟩ := h.undecided id c hc' hd' hu'
      have hne : blk'.call ≠ blk.call := hcall ▸ hid
      have hbb : b' ≠ b := by
        rintro rfl
        rw [hm] at hm'
        cases hm'
        exact hne rfl
      exact ⟨b', hkeep b' hb' (.inl hbb), blk', hother b' blk' hm' hne, hcall⟩
  · rw [hcalls] at hc'
    rw [houtc]
    by_cases hid : id = blk.call
    · subst hid
      obtain rfl : call = c := Option.some.inj (hc.symm.trans hc')
      rw [hdnew]
      exact hout
    · rw [hdec id hid]
      exact h.outcome id c hc' hd'
  · rw [houtc, hatt, hpc]
    exact hcur
  · rw [houtc]
    rw [hatt] at ha
    exact h.future a ha
  · rw [hpc] at hb'
    exact absurd hb' (hsp' _ _)
  · rw [hlog]
    by_cases hid : id = blk.call
    · subst hid
      rw [hrel (hdnew.symm.trans hx)]
      exact List.mem_append_right _ (List.mem_singleton.mpr rfl)
    · rw [hdec id hid] at hx
      exact List.mem_append_left _ (h.released id hx)
  · rw [hlog, hcalls]
    refine h.log.snoc ?_
    rcases he with rfl | ⟨c, rfl⟩
    · exact hw.notFreed
    · exact hw.notFreed

/-- an owed block is allocated, and its call is not decided -/
theorem PthreadInv.owed_block (h : PthreadInv s) (hsp : ∀ b i, s.pc ≠ .spawning b i) {b : Nat}
    (hb : b ∈ s.owed) :
    ∃ id call, s.mem b = some (blockOf id call (owedDecision s.pc b) false) ∧
      s.calls[id]? = some call ∧ call.direct = false ∧ call.attempt = s.attempt ∧
      s.decision id = owedDecision s.pc b := by
  obtain ⟨blk, call, h1, h2, h3, h4, h5⟩ := h.owed b hb
  have hu : (s.decision blk.call).decided = false := by
    rw [h5]
    exact decided_owedDecision _ _
  obtain ⟨hw, _⟩ := h.waiting hsp h1 h2 h3 hu
  exact ⟨blk.call, call, h5 ▸ hw.block, h2, h3, h4, h5⟩

theorem PthreadInv.commitAction (h : PthreadInv s) {b : Nat} {rest : List Nat}
    (hp : s.pc = .committing (b :: rest)) {s' : Pthreads R A}
    (hs : s.xPthreadCreateCommit b rest = some s') : PthreadInv s' := by
  have hsp : ∀ b i, s.pc ≠ .spawning b i := fun b i hc => by rw [hp] at hc; cases hc
  have howed : s.owed = b :: rest := by rw [Pthreads.owed, hp]
  have hnd := h.nodup
  rw [howed, List.nodup_cons] at hnd
  have hb : b ∈ s.owed := howed ▸ List.mem_cons_self
  obtain ⟨id, call, h1, h2, h3, h4, h5⟩ := h.owed_block hsp hb
  rw [hp] at h1 h5
  unfold Pthreads.xPthreadCreateCommit Pthreads.access at hs
  rw [h1] at hs
  cases hs
  have hcur := h.currentAt hp ParentPc.noConfusion
  refine h.decide (d := .committed) (e := .release id true) hsp h1 h2 h3
    (congrArg Decision.decided h5) (.inr ⟨true, rfl⟩) rfl
    (fun b i hc => by cases hc) hnd.2 (fun b' hb' => ⟨howed ▸ List.mem_cons_of_mem _ hb', ?_⟩)
    (fun b' hb' hne => ?_) hb trivial ⟨fun _ => ?_, fun hx => ?_⟩ hcur fun _ => rfl
  · have hne : b' ≠ b := fun he => hnd.1 (he ▸ hb')
    rw [if_neg hne, hp]
    rfl
  · rw [howed] at hb'
    exact (List.mem_cons.mp hb').resolve_left (hne.resolve_right fun hx => by cases hx)
  · rw [h4]
    exact hcur
  · rcases hx with hx | hx <;> cases hx

theorem PthreadInv.undoClear (h : PthreadInv s) {retry : Bool} {b : Nat} {rest : List Nat}
    (hp : s.pc = .undoing retry (b :: rest) false) {s' : Pthreads R A}
    (hs : s.xPthreadCreateUndoClear retry b rest = some s') : PthreadInv s' := by
  have hsp : ∀ b i, s.pc ≠ .spawning b i := fun b i hc => by rw [hp] at hc; cases hc
  have howed : s.owed = b :: rest := by rw [Pthreads.owed, hp]
  have hnd := h.nodup
  rw [howed] at hnd
  have hb : b ∈ s.owed := howed ▸ List.mem_cons_self
  obtain ⟨id, call, h1, h2, h3, h4, h5⟩ := h.owed_block hsp hb
  rw [hp] at h1 h5
  unfold Pthreads.xPthreadCreateUndoClear Pthreads.access at hs
  rw [h1] at hs
  cases hs
  have hcur := h.currentAt hp ParentPc.noConfusion
  refine h.decide (d := .cancelled) (e := .access id) hsp h1 h2 h3
    (congrArg Decision.decided h5) (.inl rfl) rfl
    (fun b i hc => by cases hc) hnd (fun b' hb' => ⟨howed ▸ hb', ?_⟩)
    (fun b' hb' _ => howed ▸ hb') hb trivial ⟨fun hx => (by cases hx), fun _ => ?_⟩ hcur
    fun hx => by cases hx
  · by_cases heq : b' = b
    · rw [if_pos heq]
      exact (if_pos heq).symm
    · rw [if_neg heq, hp]
      exact if_neg heq
  · rw [h4]
    exact hcur

theorem PthreadInv.undoRelease (h : PthreadInv s) {retry : Bool} {b : Nat} {rest : List Nat}
    (hp : s.pc = .undoing retry (b :: rest) true) {s' : Pthreads R A}
    (hs : s.xPthreadCreateUndo retry b rest = some s') : PthreadInv s' := by
  have hsp : ∀ b i, s.pc ≠ .spawning b i := fun b i hc => by rw [hp] at hc; cases hc
  have howed : s.owed = b :: rest := by rw [Pthreads.owed, hp]
  have hnd := h.nodup
  rw [howed, List.nodup_cons] at hnd
  have hb : b ∈ s.owed := howed ▸ List.mem_cons_self
  obtain ⟨id, call, h1, h2, h3, h4, h5⟩ := h.owed_block hsp hb
  have hcan : owedDecision s.pc b = .cancelled := by
    rw [hp]
    exact if_pos rfl
  rw [hcan] at h1 h5
  unfold Pthreads.xPthreadCreateUndo Pthreads.access at hs
  rw [h1] at hs
  cases hs
  have hcur := h.currentAt hp ParentPc.noConfusion
  refine h.decide (d := .aborted) (e := .release id false) hsp h1 h2 h3
    (congrArg Decision.decided h5) (.inr ⟨false, rfl⟩) rfl
    (fun b i hc => by cases hc) hnd.2 (fun b' hb' => ⟨howed ▸ List.mem_cons_of_mem _ hb', ?_⟩)
    (fun b' hb' hne => ?_) hb trivial ⟨fun hx => (by cases hx), fun _ => ?_⟩ hcur
    fun hx => by cases hx
  · have hne : b' ≠ b := fun he => hnd.1 (he ▸ hb')
    have hrest : owedDecision (.undoing retry rest false) b' = .pending := by
      cases rest <;> rfl
    rw [if_neg hne, hp]
    exact hrest.trans (if_neg hne).symm
  · rw [howed] at hb'
    exact (List.mem_cons.mp hb').resolve_left (hne.resolve_right fun hx => by cases hx)
  · rw [h4]
    exact hcur

/-- **A step of the parent inside of the library.** -/
theorem PthreadInv.parent (h : PthreadInv s) {s' : Pthreads R A} (hs : s.parentStep = some s') :
    PthreadInv s' := by
  unfold Pthreads.parentStep at hs
  cases hp : s.pc with
  | outside =>
    rw [hp] at hs
    cases hs
  | running irr =>
    rw [hp] at hs
    cases hs
  | spawning block call =>
    rw [hp] at hs
    cases hs
    exact h.spawn hp
  | registeringCommit block =>
    rw [hp] at hs
    cases hs
    exact h.registerCommit hp
  | registeringUndo block =>
    rw [hp] at hs
    cases hs
    exact h.registerUndo hp
  | committing rest =>
    rw [hp] at hs
    cases rest with
    | nil =>
      cases hs
      refine h.clear (by rw [Pthreads.owed, hp]) ?_
      exact fun b i hc => by rw [hp] at hc; cases hc
    | cons b rest => exact h.commitAction hp hs
  | undoing retry rest cleared =>
    rw [hp] at hs
    cases rest with
    | nil =>
      have hclear : PthreadInv s.clear := by
        refine h.clear (by rw [Pthreads.owed, hp]) ?_
        exact fun b i hc => by rw [hp] at hc; cases hc
      cases retry with
      | true =>
        cases cleared <;> cases hs <;> exact hclear.nextAttempt rfl
      | false => cases cleared <;> cases hs <;> exact hclear
    | cons b rest =>
      cases cleared with
      | false => exact h.undoClear hp hs
      | true => exact h.undoRelease hp hs

/-! ## steps of a thread -/

/-- a step of the thread of call `id`: memory changes at most at its block, and only once the call
is decided -/
structure ChildFrame (s s' : Pthreads R A) (id : Nat) : Prop where
  same : s' = { s with mem := s'.mem, pcs := s'.pcs, log := s'.log }
  present : s.pcs id ≠ .absent
  pcs : ∀ id' ≠ id, s'.pcs id' = s.pcs id'
  mem : ∀ b blk, s.mem b = some blk → blk.call ≠ id ∨ (s.decision id).decided = false →
    s'.mem b = some blk
  back : ∀ b blk', s'.mem b = some blk' → ∃ blk, s.mem b = some blk ∧ blk.call = blk'.call
  freed : ∀ id' ≠ id, .free id' ∈ s'.log ↔ .free id' ∈ s.log
  executed : ∀ id' ≠ id, Executed s'.log id' ↔ Executed s.log id'
  log : ∀ e ∈ s.log, e ∈ s'.log

theorem ChildFrame.inv {s' : Pthreads R A} {id : Nat} {call : Call R A} (hf : ChildFrame s s' id)
    (h : PthreadInv s) (hc : s.calls[id]? = some call) (hok : ThreadOk s' id call (s'.pcs id))
    (hlog : LogOk s.calls s'.log) : PthreadInv s' := by
  have hcalls : s'.calls = s.calls := by rw [hf.same]
  have hdec : s'.decision = s.decision := by rw [hf.same]
  have hpc : s'.pc = s.pc := by rw [hf.same]
  have hatt : s'.attempt = s.attempt := by rw [hf.same]
  have hout : s'.outcome = s.outcome := by rw [hf.same]
  have howed : s'.owed = s.owed := by rw [hf.same]; rfl
  refine ⟨fun id' c hc' => ?_, fun id' hle => ?_, fun b blk hm => ?_,
    fun b b' blk blk' hb hb' he => ?_, howed ▸ h.nodup, fun b hb => ?_, fun id' c hc' hd hu => ?_, ?_,
    ?_, fun hne => ?_, fun a ha => ?_, fun b i hb => ?_,
    fun i hx => hf.log _ (h.released i (hdec ▸ hx)), hcalls ▸ hlog⟩
  · rw [hcalls] at hc'
    by_cases hid : id' = id
    · subst hid
      obtain rfl : call = c := Option.some.inj (hc.symm.trans hc')
      exact hok
    · refine (h.threads id' c hc').frame ⟨fun b blk hm hcall => hf.mem b blk hm (.inl ?_),
        hf.pcs id' hid, by rw [hdec], hf.freed id' hid, hf.executed id' hid, fun _ _ _ => hpc⟩
      rw [hcall]
      exact hid
  · rw [hcalls] at hle
    have hid : id' ≠ id := by
      rintro rfl
      exact absurd (List.getElem?_eq_some_iff.mp hc).1 (Nat.not_lt.mpr hle)
    obtain ⟨h1, h2, h3, h4⟩ := h.beyond id' hle
    exact ⟨(hf.pcs id' hid).trans h1, by rw [hdec, h2], fun hx => h3 ((hf.freed id' hid).mp hx),
      fun hx => h4 ((hf.executed id' hid).mp hx)⟩
  · obtain ⟨blk', hm', he⟩ := hf.back b blk hm
    rw [hcalls, ← he]
    exact h.known b blk' hm'
  · obtain ⟨c₁, h₁, he₁⟩ := hf.back b blk hb
    obtain ⟨c₂, h₂, he₂⟩ := hf.back b' blk' hb'
    exact h.unique _ _ _ _ h₁ h₂ (he₁.trans (he.trans he₂.symm))
  · rw [howed] at hb
    obtain ⟨blk, c, h1, h2, h3, h4, h5⟩ := h.owed b hb
    rw [hcalls, hatt, hdec, hpc]
    refine ⟨blk, c, hf.mem b blk h1 ?_, h2, h3, h4, h5⟩
    by_cases hid : blk.call = id
    · rw [← hid, h5]
      exact .inr (decided_owedDecision _ _)
    · exact .inl hid
  · rw [hcalls] at hc'
    rw [hdec] at hu
    rw [howed]
    obtain ⟨b, hb, blk, hm, hcall⟩ := h.undecided id' c hc' hd hu
    refine ⟨b, hb, blk, hf.mem b blk hm ?_, hcall⟩
    by_cases hid : id' = id
    · exact .inr (hid ▸ hu)
    · exact .inl (hcall ▸ hid)
  · have := h.lists
    rw [hf.same]
    exact this
  · rw [hcalls, hdec, hout]
    exact h.outcome
  · rw [hout, hatt, hpc]
    exact h.current (hpc ▸ hne)
  · rw [hout]
    exact h.future a (hatt ▸ ha)
  · rw [hpc] at hb
    obtain ⟨habs, hlt⟩ := h.spawning b i hb
    have hid : i ≠ id := by
      rintro rfl
      exact hf.present habs
    exact ⟨(hf.pcs i hid).trans habs, hcalls ▸ hlt⟩

theorem childFrame_setPc (id : Nat) (pc : ChildPc R A) (hp : s.pcs id ≠ .absent) :
    ChildFrame s (s.setPc id pc) id :=
  ⟨rfl, hp, fun _ hne => Function.update_of_ne hne _ _, fun _ _ hm _ => hm,
    fun _ blk hm => ⟨blk, hm, rfl⟩, fun _ _ => Iff.rfl, fun _ _ => Iff.rfl, fun _ he => he⟩

theorem setPc_self (id : Nat) (pc : ChildPc R A) : (s.setPc id pc).pcs id = pc :=
  Function.update_self ..

theorem childFrame_setBlock {id block : Nat} {blk : ControlBlock R A} (hm : s.mem block = some blk)
    (hid : blk.call = id) (hd : (s.decision id).decided = true) (hp : s.pcs id ≠ .absent)
    (new : Option (ControlBlock R A)) (hnew : ∀ blk', new = some blk' → blk'.call = id)
    (pc : ChildPc R A) : ChildFrame s ((s.setBlock block new).setPc id pc) id := by
  have hother : ∀ b ≠ block, ((s.setBlock block new).setPc id pc).mem b = s.mem b := fun b hb =>
    Function.update_of_ne hb _ _
  have hself : ((s.setBlock block new).setPc id pc).mem block = new := Function.update_self ..
  refine ⟨rfl, hp, fun _ hne => Function.update_of_ne hne _ _, fun b blk' hb hor => ?_,
    fun b blk' hb => ?_, fun _ _ => Iff.rfl, fun _ _ => Iff.rfl, fun _ he => he⟩
  · have hne : b ≠ block := by
      rintro rfl
      rw [hm] at hb
      cases hb
      rcases hor with hor | hor
      · exact hor hid
      · rw [hd] at hor
        cases hor
    rw [hother b hne]
    exact hb
  · by_cases hbb : b = block
    · rw [hbb, hself] at hb
      exact ⟨blk, hbb ▸ hm, hid.trans (hnew blk' hb).symm⟩
    · rw [hother b hbb] at hb
      exact ⟨blk', hb, rfl⟩

theorem ChildFrame.log_snoc {s' : Pthreads R A} {id : Nat} (hf : ChildFrame s s' id)
    {e : LogEntry R A} (hfree : ∀ id' ≠ id, e ≠ .free id')
    (hexec : ∀ id' ≠ id, ∀ r a, e ≠ .exec id' r a) :
    ChildFrame s { s' with log := s'.log ++ [e] } id := by
  refine ⟨?_, hf.present, hf.pcs, hf.mem, hf.back, fun id' hne => ?_, fun id' hne => ?_,
    fun x hx => List.mem_append_left _ (hf.log x hx)⟩
  · have hsame := hf.same
    rw [hsame]
  · rw [← hf.freed id' hne]
    exact free_mem_snoc (hfree id' hne)
  · rw [← hf.executed id' hne]
    exact executed_snoc (hexec id' hne)

theorem PthreadInv.call_of_present (h : PthreadInv s) {id : Nat} (hp : s.pcs id ≠ .absent) :
    ∃ call, s.calls[id]? = some call := by
  have hlt : id < s.calls.length := by
    by_contra hge
    exact hp (h.beyond id (Nat.not_lt.mp hge)).1
  exact ⟨_, List.getElem?_eq_getElem hlt⟩

theorem access_of_some {block : Nat} {blk : ControlBlock R A}
    {f : ControlBlock R A → Option (Pthreads R A)} (hm : s.mem block = some blk) :
    s.access block f = f blk := by
  unfold Pthreads.access
  rw [hm]

theorem startOf_some {call : Call R A} {d : Decision} {r : R} (hd : d.decided = true)
    (h : startOf call d = some r) : d = .committed ∧ r = call.start := by
  cases d with
  | committed =>
    cases h
    exact ⟨rfl, rfl⟩
  | pending => cases hd
  | cancelled => cases hd
  | aborted => cases h

theorem startOf_none {call : Call R A} {d : Decision} (hd : d.decided = true)
    (h : startOf call d = none) : d = .aborted := by
  cases d with
  | committed => cases h
  | pending => cases hd
  | cancelled => cases hd
  | aborted => rfl

theorem PthreadInv.lock (h : PthreadInv s) {id block : Nat} {call : Call R A}
    (hc : s.calls[id]? = some call) (hp : s.pcs id ≠ .absent) (hw : Waiting s id call block false)
    (hd : (s.decision id).decided = true) :
    PthreadInv ((s.setBlock block (some (blockOf id call (s.decision id) true))).setPc id
      (.loading block call.arg)) := by
  refine (childFrame_setBlock hw.block rfl hd hp _ (fun blk' hb => ?_) _).inv h hc ?_ h.log
  · cases hb
    rfl
  · rw [setPc_self]
    exact ⟨⟨hw.retryable, Function.update_self .., hw.notFreed, hw.notExecuted⟩, hd, rfl⟩

theorem PthreadInv.free (h : PthreadInv s) {id block : Nat} {call : Call R A}
    (hc : s.calls[id]? = some call) (hp : s.pcs id ≠ .absent) (hw : Waiting s id call block true)
    (hd : (s.decision id).decided = true) :
    PthreadInv { (s.setBlock block none).setPc id
        (.starting call.arg (startOf call (s.decision id))) with log := s.log ++ [.free id] } := by
  have hf := (childFrame_setBlock hw.block rfl hd hp none (fun blk' hb => by cases hb)
    (.starting call.arg (startOf call (s.decision id)))).log_snoc (e := .free id)
    (fun id' hne hx => hne (by cases hx; rfl)) (fun id' _ r a hx => by cases hx)
  refine hf.inv h hc ?_ (h.log.snoc hw.notFreed)
  show ThreadOk _ id call (Function.update s.pcs id _ id)
  rw [Function.update_self]
  refine ⟨hw.retryable, hd, List.mem_append_right _ (List.mem_singleton.mpr rfl), fun hx => ?_, rfl,
    rfl⟩
  exact hw.notExecuted ((executed_snoc (by rintro r a ⟨⟩)).mp hx)

theorem PthreadInv.exec (h : PthreadInv s) {id : Nat} {call : Call R A}
    (hc : s.calls[id]? = some call) (hp : s.pcs id ≠ .absent) (hx : ¬ Executed s.log id)
    (hd : call.direct = false →
      (s.decision id).decided = true ∧ .free id ∈ s.log ∧ s.decision id = .committed) :
    PthreadInv { s.setPc id .done with log := s.log ++ [.exec id call.start call.arg] } := by
  have hf := (childFrame_setPc id .done hp).log_snoc (e := .exec id call.start call.arg)
    (fun id' _ hx => by cases hx) (fun id' hne r a hx => hne (by cases hx; rfl))
  refine hf.inv h hc ?_ (h.log.snoc ⟨fun r a hm => hx ⟨r, a, hm⟩, call, hc, rfl, rfl, fun hdir => ?_⟩)
  · show ThreadOk _ id call (Function.update s.pcs id _ id)
    rw [Function.update_self]
    refine ⟨fun hdir => ⟨(hd hdir).1, List.mem_append_left _ (hd hdir).2.1⟩, fun _ => ?_, fun _ => ?_⟩
    · cases hdir : call.direct with
      | true => exact .inl rfl
      | false => exact .inr (hd hdir).2.2
    · exact ⟨_, _, List.mem_append_right _ (List.mem_singleton.mpr rfl)⟩
  · exact h.released id (hd hdir).2.2

/-- **A step of a thread.** -/
theorem PthreadInv.child (h : PthreadInv s) {id : Nat} {s' : Pthreads R A}
    (hs : s.childStep id = some s') : PthreadInv s' := by
  unfold Pthreads.childStep at hs
  by_cases habs : s.pcs id = .absent
  · rw [habs] at hs
    cases hs
  obtain ⟨call, hc⟩ := h.call_of_present habs
  have ht := h.threads id call hc
  cases hp : s.pcs id with
  | absent => exact absurd hp habs
  | entry block =>
    rw [hp] at ht hs
    have hw : Waiting s id call block false := ht
    simp only [access_of_some hw.block, Option.some.injEq] at hs
    subst hs
    refine (childFrame_setPc id _ habs).inv h hc ?_ h.log
    rw [setPc_self]
    exact ⟨⟨hw.retryable, hw.block, hw.notFreed, hw.notExecuted⟩, rfl⟩
  | locking block myarg =>
    rw [hp] at ht hs
    obtain ⟨hw, rfl⟩ := ht
    simp only [access_of_some hw.block] at hs
    split at hs
    · cases hs
    · rename_i hlock
      have hd : (s.decision id).decided = true := by simpa [blockOf] using hlock
      rw [Option.some.injEq] at hs
      subst hs
      have hlk := h.lock hc habs hw hd
      have heq : blockOf id call (s.decision id) true
          = { blockOf id call (s.decision id) false with startLock := true } := by
        simp [blockOf]
      rwa [heq] at hlk
  | loading block myarg =>
    rw [hp] at ht hs
    obtain ⟨hw, hd, rfl⟩ := ht
    simp only [access_of_some hw.block, Option.some.injEq] at hs
    subst hs
    refine (childFrame_setPc id _ habs).inv h hc ?_ h.log
    rw [setPc_self]
    exact ⟨⟨hw.retryable, hw.block, hw.notFreed, hw.notExecuted⟩, hd, rfl, rfl⟩
  | freeing block myarg start =>
    rw [hp] at ht hs
    obtain ⟨hw, hd, rfl, rfl⟩ := ht
    simp only [access_of_some hw.block, Option.some.injEq] at hs
    subst hs
    exact h.free hc habs hw hd
  | starting myarg start =>
    rw [hp] at ht hs
    obtain ⟨h1, h2, h3, h4, rfl, h6⟩ := ht
    cases start with
    | some r =>
      cases hs
      obtain ⟨hcom, rfl⟩ := startOf_some h2 h6.symm
      exact h.exec hc habs h4 fun _ => ⟨h2, h3, hcom⟩
    | none =>
      cases hs
      have hab := startOf_none h2 h6.symm
      refine (childFrame_setPc id _ habs).inv h hc ?_ h.log
      rw [setPc_self]
      refine ⟨fun _ => ⟨h2, h3⟩, fun hx => absurd hx h4, fun hor => ?_⟩
      rcases hor with hor | hor
      · rw [h1] at hor
        cases hor
      · have hab' : s.decision id = .committed := hor
        rw [hab] at hab'
        cases hab'
  | direct start myarg =>
    rw [hp] at ht hs
    obtain ⟨h1, h2, rfl, rfl, _⟩ := ht
    cases hs
    exact h.exec hc habs h2 fun hdir => absurd (hdir.symm.trans h1) Bool.false_ne_true
  | done =>
    rw [hp] at hs
    cases hs

/-! ## every run -/

/-- **One step.** -/
theorem PthreadInv.step (h : PthreadInv s) {ev : PthreadEvent R A} {s' : Pthreads R A}
    (hs : pthreadStep s ev = some s') : PthreadInv s' := by
  cases ev with
  | begin =>
    obtain ⟨hp, hs⟩ := Option.ite_none_right_eq_some.mp hs
    cases hs
    exact h.nextAttempt hp
  | irrevocable =>
    obtain ⟨hp, hs⟩ := Option.ite_none_right_eq_some.mp hs
    cases hs
    exact h.irrevocable hp
  | xPthreadCreate block start arg =>
    obtain ⟨⟨hp, hm⟩, hs⟩ := Option.ite_none_right_eq_some.mp hs
    cases hs
    exact h.create hp hm start arg
  | xPthreadCreateDirect start arg =>
    obtain ⟨hp, hs⟩ := Option.ite_none_right_eq_some.mp hs
    cases hs
    exact h.createDirect hp start arg
  | commit =>
    obtain ⟨hp, hs⟩ := Option.ite_none_right_eq_some.mp hs
    cases hs
    rcases hp with hp | hp
    · exact h.commit hp
    · exact h.commit hp
  | abort retry =>
    obtain ⟨hp, hs⟩ := Option.ite_none_right_eq_some.mp hs
    cases hs
    exact h.abort hp retry
  | parent => exact h.parent hs
  | child id => exact h.child hs

end

theorem pthreadInv_reach {s : Pthreads R A} (h : Reach pthreadStep any (· = pthreadsInit) s) :
    PthreadInv s :=
  h.inv (fun _ hs => hs ▸ pthreadInv_init) fun _ _ _ hi _ hs => hi.step hs

/-! ## what the log says about a call -/

def LogEntry.execOf (id : Nat) : LogEntry R A → Option (R × A)
  | .exec i r a => if i = id then some (r, a) else none
  | _ => none

def LogEntry.isFree (id : Nat) : LogEntry R A → Bool
  | .free i => i = id
  | _ => false

/-- the executions of a call's start routine, with their arguments -/
def execs (log : List (LogEntry R A)) (id : Nat) : List (R × A) := log.filterMap (LogEntry.execOf id)

/-- how often the control block of a call has been freed -/
def frees (log : List (LogEntry R A)) (id : Nat) : Nat := log.countP (LogEntry.isFree id)

theorem mem_execs {log : List (LogEntry R A)} {id : Nat} {p : R × A} :
    p ∈ execs log id ↔ .exec id p.1 p.2 ∈ log := by
  unfold execs
  rw [List.mem_filterMap]
  constructor
  · rintro ⟨e, he, hp⟩
    cases e with
    | exec i r a =>
      have hi : i = id ∧ (r, a) = p := by
        simp only [LogEntry.execOf, Option.ite_none_right_eq_some, Option.some.injEq] at hp
        exact hp
      obtain ⟨rfl, rfl⟩ := hi
      exact he
    | _ => cases hp
  · intro he
    exact ⟨_, he, if_pos rfl⟩

theorem execs_eq_nil {log : List (LogEntry R A)} {id : Nat} :
    execs log id = [] ↔ ¬ Executed log id := by
  rw [List.eq_nil_iff_forall_not_mem]
  constructor
  · rintro h ⟨r, a, hm⟩
    exact h (r, a) (mem_execs.mpr hm)
  · exact fun h p hp => h ⟨p.1, p.2, mem_execs.mp hp⟩

theorem LogOk.init {calls : List (Call R A)} {log : List (LogEntry R A)} {e : LogEntry R A}
    (h : LogOk calls (log ++ [e])) : LogOk calls log ∧ EntryOk calls log e := by
  refine ⟨fun before e' after heq => h before e' (after ++ [e]) ?_, h log e [] rfl⟩
  rw [heq, List.append_assoc]
  rfl

/-- a start routine is run at most once, and it is the one of the call -/
theorem LogOk.execs_le {calls : List (Call R A)} {log : List (LogEntry R A)} (h : LogOk calls log)
    {id : Nat} {call : Call R A} (hc : calls[id]? = some call) (hx : Executed log id) :
    execs log id = [(call.start, call.arg)] := by
  induction log using List.reverseRecOn with
  | nil =>
    obtain ⟨r, a, hm⟩ := hx
    cases hm
  | append_singleton log e ih =>
    obtain ⟨hlog, he⟩ := h.init
    have happ : execs (log ++ [e]) id = execs log id ++ execs [e] id := List.filterMap_append ..
    by_cases hex : ∃ r a, e = .exec id r a
    · obtain ⟨r, a, rfl⟩ := hex
      obtain ⟨honce, c, hc', rfl, rfl, _⟩ := he
      obtain rfl : call = c := Option.some.inj (hc.symm.trans hc')
      have hnil : execs log id = [] := execs_eq_nil.mpr fun ⟨r, a, hm⟩ => honce r a hm
      rw [happ, hnil, List.nil_append]
      simp [execs, LogEntry.execOf]
    · have hne : ∀ r a, e ≠ .exec id r a := fun r a hea => hex ⟨r, a, hea⟩
      have hnil : execs [e] id = [] := by
        rw [execs_eq_nil]
        rintro ⟨r, a, hm⟩
        exact hne r a (List.mem_singleton.mp hm).symm
      rw [happ, hnil, List.append_nil]
      exact ih hlog ((executed_snoc hne).mp hx)

/-- a control block is freed at most once -/
theorem LogOk.frees_eq_one {calls : List (Call R A)} {log : List (LogEntry R A)}
    (h : LogOk calls log) {id : Nat} (hx : .free id ∈ log) : frees log id = 1 := by
  induction log using List.reverseRecOn with
  | nil => cases hx
  | append_singleton log e ih =>
    obtain ⟨hlog, he⟩ := h.init
    unfold frees
    rw [List.countP_append]
    by_cases hef : e = .free id
    · subst hef
      have hnil : log.countP (LogEntry.isFree id) = 0 := by
        rw [List.countP_eq_zero]
        intro x hm hf
        cases x with
        | free i =>
          have hi : i = id := by simpa [LogEntry.isFree] using hf
          exact he (hi ▸ hm)
        | _ => cases hf
      rw [hnil]
      simp [LogEntry.isFree]
    · have hnil : [e].countP (LogEntry.isFree id) = 0 := by
        rw [List.countP_eq_zero]
        intro x hm hf
        obtain rfl := List.mem_singleton.mp hm
        cases x with
        | free i =>
          have hi : i = id := by simpa [LogEntry.isFree] using hf
          exact hef (hi ▸ rfl)
        | _ => cases hf
      rw [hnil]
      exact ih hlog ((free_mem_snoc hef).mp hx)

def ChildPc.work : ChildPc R A → Nat
  | .absent => 6
  | .entry _ => 5
  | .locking _ _ => 4
  | .loading _ _ => 3
  | .freeing _ _ _ => 2
  | .starting _ _ => 1
  | .direct _ _ => 1
  | .done => 0

/-- what becomes of a call -/
structure CallOutcome (s : Pthreads R A) (id : Nat) (call : Call R A) : Prop where
  aborted : call.direct = false → s.outcome call.attempt = some false → execs s.log id = []
  finished : s.pcs id = .done →
    (call.direct = true ∨ s.outcome call.attempt = some true →
      execs s.log id = [(call.start, call.arg)]) ∧
    (call.direct = false → frees s.log id = 1)
  ended : s.pc = .outside →
    (call.direct = false → s.outcome call.attempt = some true ∨ s.outcome call.attempt = some false) ∧
    (s.pcs id ≠ .done → ∃ s', pthreadStep s (.child id) = some s' ∧
      (s'.pcs id).work < (s.pcs id).work ∧ ∀ id' ≠ id, s'.pcs id' = s.pcs id')

section
variable {s : Pthreads R A} (h : PthreadInv s) {id : Nat} {call : Call R A}
  (hc : s.calls[id]? = some call)
include h hc

theorem PthreadInv.not_executed (hd : call.direct = false)
    (hcom : s.decision id ≠ .committed) : ¬ Executed s.log id := by
  intro hx
  have ht := h.threads id call hc
  cases hp : s.pcs id with
  | absent =>
    rw [hp] at ht
    obtain ⟨_, _, hw⟩ := ht
    exact hw.notExecuted hx
  | entry block =>
    rw [hp] at ht
    exact Waiting.notExecuted ht hx
  | locking block myarg =>
    rw [hp] at ht
    exact ht.1.notExecuted hx
  | loading block myarg =>
    rw [hp] at ht
    exact ht.1.notExecuted hx
  | freeing block myarg start =>
    rw [hp] at ht
    exact ht.1.notExecuted hx
  | starting myarg start =>
    rw [hp] at ht
    exact ht.2.2.2.1 hx
  | direct start myarg =>
    rw [hp] at ht
    exact ht.2.1 hx
  | done =>
    rw [hp] at ht
    rcases ht.2.mp hx with hdir | hx'
    · rw [hd] at hdir
      cases hdir
    · exact hcom hx'

/-- only the block of a decided call is freed -/
theorem PthreadInv.decided_of_freed (hd : call.direct = false) (hx : .free id ∈ s.log) :
    (s.decision id).decided = true := by
  have ht := h.threads id call hc
  cases hp : s.pcs id with
  | absent =>
    rw [hp] at ht
    obtain ⟨_, _, hw⟩ := ht
    exact absurd hx hw.notFreed
  | entry block =>
    rw [hp] at ht
    exact absurd hx (Waiting.notFreed ht)
  | locking block myarg =>
    rw [hp] at ht
    exact absurd hx ht.1.notFreed
  | loading block myarg =>
    rw [hp] at ht
    exact ht.2.1
  | freeing block myarg start =>
    rw [hp] at ht
    exact ht.2.1
  | starting myarg start =>
    rw [hp] at ht
    exact ht.2.1
  | direct start myarg =>
    rw [hp] at ht
    exact absurd (hd.symm.trans ht.1) Bool.false_ne_true
  | done =>
    rw [hp] at ht
    exact (ht.1 hd).1

theorem PthreadInv.decided_outside (hd : call.direct = false) (hp : s.pc = .outside) :
    (s.decision id).decided = true := by
  cases hu : (s.decision id).decided with
  | true => rfl
  | false =>
    obtain ⟨b, hb, _⟩ := h.undecided id call hc hd hu
    rw [Pthreads.owed, hp] at hb
    cases hb

theorem PthreadInv.outcome_of_decided (hd : call.direct = false)
    (hdec : (s.decision id).decided = true) :
    (s.decision id = .committed ∧ s.outcome call.attempt = some true) ∨
      (s.decision id = .aborted ∧ s.outcome call.attempt = some false) := by
  obtain ⟨h1, h2⟩ := h.outcome id call hc hd
  cases hx : s.decision id with
  | committed => exact .inl ⟨rfl, h1 hx⟩
  | aborted => exact .inr ⟨rfl, h2 (.inr hx)⟩
  | pending =>
    rw [hx] at hdec
    cases hdec
  | cancelled =>
    rw [hx] at hdec
    cases hdec

/-- a thread that is not blocked any more has a step -/
theorem PthreadInv.child_enabled (hp : s.pc = .outside) (hnd : s.pcs id ≠ .done) :
    ∃ s', pthreadStep s (.child id) = some s' ∧ (s'.pcs id).work < (s.pcs id).work ∧
      ∀ id' ≠ id, s'.pcs id' = s.pcs id' := by
  have ht := h.threads id call hc
  have hself : ∀ pc : ChildPc R A, pc.work < (s.pcs id).work →
      (Function.update s.pcs id pc id).work < (s.pcs id).work ∧
        ∀ id' ≠ id, Function.update s.pcs id pc id' = s.pcs id' := fun pc hlt =>
    ⟨by rwa [Function.update_self], fun id' hne => Function.update_of_ne hne _ _⟩
  have hstep : pthreadStep s (.child id) = s.childStep id := rfl
  rw [hstep]
  unfold Pthreads.childStep
  cases hpc : s.pcs id with
  | absent =>
    rw [hpc] at ht
    obtain ⟨_, hsp, _⟩ := ht
    rw [hp] at hsp
    cases hsp
  | entry block =>
    rw [hpc] at ht hself
    have hw : Waiting s id call block false := ht
    simp only [access_of_some hw.block]
    exact ⟨_, rfl, hself _ (by simp [ChildPc.work])⟩
  | locking block myarg =>
    rw [hpc] at ht hself
    have hw := ht.1
    have hlock : (blockOf id call (s.decision id) false).startLock = false := by
      simp [blockOf, h.decided_outside hc hw.retryable hp]
    simp only [access_of_some hw.block, hlock, Bool.false_eq_true, if_false]
    exact ⟨_, rfl, hself _ (by simp [ChildPc.work])⟩
  | loading block myarg =>
    rw [hpc] at ht hself
    have hw := ht.1
    simp only [access_of_some hw.block]
    exact ⟨_, rfl, hself _ (by simp [ChildPc.work])⟩
  | freeing block myarg start =>
    rw [hpc] at ht hself
    have hw := ht.1
    simp only [access_of_some hw.block]
    exact ⟨_, rfl, hself _ (by simp [ChildPc.work])⟩
  | starting myarg start =>
    rw [hpc] at hself
    cases start <;> exact ⟨_, rfl, hself _ (by simp [ChildPc.work])⟩
  | direct start myarg =>
    rw [hpc] at hself
    exact ⟨_, rfl, hself _ (by simp [ChildPc.work])⟩
  | done => exact absurd hpc hnd

theorem PthreadInv.callOutcome : CallOutcome s id call := by
  refine ⟨fun hd hout => ?_, fun hdone => ?_, fun hp => ⟨fun hd => ?_, h.child_enabled hc hp⟩⟩
  · refine execs_eq_nil.mpr (h.not_executed hc hd fun hcom => ?_)
    rw [(h.outcome id call hc hd).1 hcom] at hout
    cases hout
  · have ht := h.threads id call hc
    rw [hdone] at ht
    refine ⟨fun hor => h.log.execs_le hc (ht.2.mpr ?_), fun hd => h.log.frees_eq_one (ht.1 hd).2⟩
    cases hd : call.direct with
    | true => exact .inl rfl
    | false =>
      right
      rcases h.outcome_of_decided hc hd (ht.1 hd).1 with ⟨hcom, _⟩ | ⟨_, hout⟩
      · exact hcom
      · rw [hd, hout] at hor
        rcases hor with hor | hor <;> cases hor
  · rcases h.outcome_of_decided hc hd (h.decided_outside hc hd hp) with ⟨_, ho⟩ | ⟨_, ho⟩
    · exact .inl ho
    · exact .inr ho

end

/-- **Threads created in a transaction run when it commits.**  In every state of every run of a
transaction, over any number of attempts and calls, and of the threads it creates: nobody accesses
memory that is not allocated; no start routine has been run before the commit action of its call
(unless it was created directly), or twice, or with another argument; no block is freed twice, or
accessed by the parent after it is freed, and what the parent will still access is allocated; the
start routine of a call of an aborted attempt is not run; when the thread of a call of the
committed attempt is done, its start routine has been run exactly once, and every control block of
a thread that is done has been freed exactly once; and once the transaction is over every call is
decided and every thread that is not done can go on until it is. -/
theorem pthread_create_deferred (s : Pthreads R A)
    (h : Reach pthreadStep any (· = pthreadsInit) s) :
    LogOk s.calls s.log ∧
    (∀ b ∈ s.owed, ∃ blk, s.mem b = some blk ∧ .free blk.call ∉ s.log) ∧
    ∀ id call, s.calls[id]? = some call → CallOutcome s id call := by
  have hinv := pthreadInv_reach h
  refine ⟨hinv.log, fun b hb => ?_, fun id call hc => hinv.callOutcome hc⟩
  obtain ⟨blk, call, h1, h2, h3, h4, h5⟩ := hinv.owed b hb
  refine ⟨blk, h1, fun hfree => ?_⟩
  have hdec := hinv.decided_of_freed h2 h3 hfree
  rw [h5, decided_owedDecision] at hdec
  cases hdec

/-- an attempt with one call that is aborted while its thread waits, and a committed one that gets
the same block again -/
def retriedRun : List (PthreadEvent Nat Nat) :=
  [.begin, .xPthreadCreate 100 7 70, .parent, .parent, .parent, .child 0, .abort true, .parent,
    .parent, .parent, .child 0, .child 0, .child 0, .child 0, .xPthreadCreate 100 8 80, .parent,
    .parent, .parent, .commit, .child 1, .parent, .child 1, .parent, .child 1, .child 1, .child 1]

theorem pthread_create_retriedRun :
    ∃ s : Pthreads Nat Nat, run pthreadStep pthreadsInit retriedRun = some s ∧
      execs s.log 0 = [] ∧ frees s.log 0 = 1 ∧ execs s.log 1 = [(8, 80)] ∧ frees s.log 1 = 1 := by
  have hrun : ((run pthreadStep pthreadsInit retriedRun).map fun s => decide
      (s.pcs 0 = .done ∧ s.pcs 1 = .done ∧ s.calls = [⟨1, 7, 70, false⟩, ⟨2, 8, 80, false⟩] ∧
        s.outcome 1 = some false ∧ s.outcome 2 = some true)) = some true := by
    decide +kernel
  obtain ⟨s, hs, heq⟩ := Option.map_eq_some_iff.mp hrun
  obtain ⟨hd0, hd1, hcalls, ho1, ho2⟩ := of_decide_eq_true heq
  obtain ⟨_, _, hcall⟩ := pthread_create_deferred s (reach_of_run _ hs)
  have h0 := hcall 0 ⟨1, 7, 70, false⟩ (by rw [hcalls]; rfl)
  have h1 := hcall 1 ⟨2, 8, 80, false⟩ (by rw [hcalls]; rfl)
  exact ⟨s, hs, h0.aborted rfl ho1, (h0.finished hd0).2 rfl, (h1.finished hd1).1 (.inr ho2),
    (h1.finished hd1).2 rfl⟩

/-- an irrevocable transaction creates its thread at once, and the start routine runs while the
transaction does -/
theorem irrevocable_runs_early :
    ∃ s : Pthreads Nat Nat, run pthreadStep pthreadsInit
        [.begin, .irrevocable, .xPthreadCreateDirect 7 70, .child 0] = some s ∧
      s.pc = .running true ∧ s.outcome s.attempt = none ∧ execs s.log 0 = [(7, 70)] ∧
      .release 0 true ∉ s.log := by
  have hrun : ((run pthreadStep (pthreadsInit : Pthreads Nat Nat)
      [.begin, .irrevocable, .xPthreadCreateDirect 7 70, .child 0]).map fun s => decide
      (s.pc = .running true ∧ s.outcome s.attempt = none ∧ execs s.log 0 = [(7, 70)] ∧
        .release 0 true ∉ s.log)) = some true := by
    decide +kernel
  obtain ⟨s, hs, heq⟩ := Option.map_eq_some_iff.mp hrun
  exact ⟨s, hs, of_decide_eq_true heq⟩

end XCalls
