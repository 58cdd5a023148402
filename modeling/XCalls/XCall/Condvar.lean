import XCalls.Lib.EventSys

/-!
# Condition variables: one waiter, any number of signalling transactions

The waiter runs a `COND_XACT_BEGIN` … `COND_XACT_END` block: `txc_cond_wait` notes the event
counter inside the transaction, the transaction ends, and `txc_cond_event_deferred_wait` goes to
sleep outside it.  A signaller is a transaction that calls `txc_cond_event_tm_signal`, whose
increment is the transaction's and whose `futex_wake` is not.

* `CondVars`, `CondWaiter`   the variables of the macro and the place in it;
* `SignalTx`                 a signalling transaction: what it read, its own copy, and whether it
                             is between the increment and the wake-up;
* `condStep`                 the interleaving.  Of the STM: a transaction reads the committed
                             counter (or its own copy), commits only if what it read is still
                             committed, and may be rolled back at any time.

The wake-up is issued before the increment is visible: a waiter that goes to sleep between the two
sees the old counter and is not woken by the commit (`wakeup_lost`).  `no_lost_wakeup`: that is
the only way.
-/

set_option linter.unusedSectionVars false

namespace XCalls
open EventSys

/-- `struct txc_cond_event_s` -/
structure CondEvent where
  event : UInt32
  loops : UInt32
  deriving DecidableEq, Repr

structure CondVars where
  doWait : Bool
  condVal : UInt32
  doExit : Bool
  deriving DecidableEq, Repr

inductive WaiterPc where
  /-- the head of the `do` loop -/
  | head
  /-- in `txc_cond_event_deferred_wait`, after the test, before `futex_wait` -/
  | futexWait
  | asleep
  | beginTx
  /-- in the transaction, at `__begin_label` -/
  | beginLabel
  /-- in the transaction, in the code between the two macros -/
  | body
  | endTx
  /-- `while (__do_wait)` -/
  | loopTest
  | done
  deriving DecidableEq, Repr

/-- `saved`: the variables as they were when the transaction began; `read`: the counter, if the
transaction has read it -/
structure CondWaiter where
  pc : WaiterPc
  vars : CondVars
  saved : CondVars
  read : Option UInt32
  deriving DecidableEq, Repr

/-- `own` is the transaction's copy of the counter once it has read it -/
structure SignalTx where
  read : Option UInt32
  own : UInt32
  waking : Bool
  deriving DecidableEq, Repr

structure CondSys (T : Type) where
  ev : CondEvent
  waiter : CondWaiter
  tx : T → Option SignalTx

inductive CondAct (T : Type) where
  /-- the next step of the macros' own code -/
  | waiter
  /-- the code between the macros calls `txc_cond_wait` -/
  | wait
  /-- the code between the macros reaches `COND_XACT_END` -/
  | leave
  /-- the waiter's transaction is rolled back and begins again -/
  | waiterAbort
  | begin (t : T)
  /-- `ev->event++` of `txc_cond_event_tm_signal` -/
  | increment (t : T)
  /-- `txc_cond_event_tm_signal_body` -/
  | signalBody (t : T)
  | commit (t : T)
  | abort (t : T)
  deriving DecidableEq, Repr

/-- what a transaction read is still what is committed -/
def stillCommitted (ev : CondEvent) (read : Option UInt32) : Bool :=
  read.all (· == ev.event)

/-! ## The waiter -/

def waiterStep (ev : CondEvent) (w : CondWaiter) : Option CondWaiter :=
  match w.pc with
  | .head =>
    if w.vars.doWait && w.vars.condVal == ev.event then some { w with pc := .futexWait }
    else some { w with pc := .beginTx }
  | .futexWait =>
    -- the kernel compares and sleeps in one step
    if ev.event = w.vars.condVal then some { w with pc := .asleep }
    else some { w with pc := .beginTx }
  | .asleep => none
  | .beginTx => some { w with pc := .beginLabel, saved := w.vars, read := none }
  | .beginLabel =>
    if w.vars.doExit then some { w with pc := .endTx, vars := { w.vars with doExit := false } }
    else some { w with pc := .body, vars := { w.vars with doWait := false } }
  | .body => none
  | .endTx =>
    if stillCommitted ev w.read then some { w with pc := .loopTest, read := none } else none
  | .loopTest =>
    if w.vars.doWait then some { w with pc := .head } else some { w with pc := .done }
  | .done => none

/-- `txc_cond_event_get`, transactional -/
def condEventGet (ev : CondEvent) (w : CondWaiter) : UInt32 := w.read.getD ev.event

/-- `txc_cond_wait_label`: note the counter, and leave the transaction through `__begin_label` -/
def txcCondWait (ev : CondEvent) (w : CondWaiter) : CondWaiter :=
  { w with
    pc := .beginLabel
    read := some (condEventGet ev w)
    vars := { doWait := true, condVal := condEventGet ev w, doExit := true } }

def WaiterPc.inTx : WaiterPc → Bool
  | .beginLabel | .body | .endTx => true
  | _ => false

def waiterRollback (w : CondWaiter) : CondWaiter :=
  { w with pc := .beginTx, vars := w.saved, read := none }

/-- `futex_wake(&ev->event, 1)`: the sleeper returns from `txc_cond_event_deferred_wait` -/
def futexWake (w : CondWaiter) : CondWaiter :=
  if w.pc = .asleep then { w with pc := .beginTx } else w

/-! ## The signallers -/

/-- `ev->event++` -/
def SignalTx.increment (ev : CondEvent) (x : SignalTx) : SignalTx :=
  match x.read with
  | none => { read := some ev.event, own := ev.event + 1, waking := true }
  | some _ => { x with own := x.own + 1, waking := true }

def SignalTx.publish (ev : CondEvent) (x : SignalTx) : CondEvent :=
  if x.read.isSome then { ev with event := x.own } else ev

/-- the transaction has signalled, and is not in the middle of another signal -/
def SignalTx.signalled (x : SignalTx) : Bool := x.read.isSome && !x.waking

section
variable {T : Type} [DecidableEq T]

def CondSys.set (s : CondSys T) (t : T) (x : Option SignalTx) : CondSys T :=
  { s with tx := Function.update s.tx t x }

def condStep (s : CondSys T) : CondAct T → Option (CondSys T)
  | .waiter => (waiterStep s.ev s.waiter).map fun w => { s with waiter := w }
  | .wait =>
    if s.waiter.pc = .body then
      some { s with
        ev := { s.ev with loops := s.ev.loops + 1 }
        waiter := txcCondWait s.ev s.waiter }
    else none
  | .leave =>
    if s.waiter.pc = .body then some { s with waiter := { s.waiter with pc := .endTx } } else none
  | .waiterAbort =>
    if s.waiter.pc.inTx then some { s with waiter := waiterRollback s.waiter } else none
  | .begin t =>
    match s.tx t with
    | none => some (s.set t (some { read := none, own := 0, waking := false }))
    | some _ => none
  | .increment t =>
    match s.tx t with
    | some x => if x.waking then none else some (s.set t (some (x.increment s.ev)))
    | none => none
  | .signalBody t =>
    match s.tx t with
    | some x =>
      if x.waking then
        some { s.set t (some { x with waking := false }) with waiter := futexWake s.waiter }
      else none
    | none => none
  | .commit t =>
    match s.tx t with
    | some x =>
      if !x.waking && stillCommitted s.ev x.read then
        some { s.set t none with ev := x.publish s.ev }
      else none
    | none => none
  | .abort t =>
    match s.tx t with
    | some _ => some (s.set t none)
    | none => none

/-- the waiter is at the `do` of its block, and nobody has begun -/
def CondStart (s : CondSys T) : Prop :=
  s.waiter.pc = .head ∧ s.waiter.vars.doWait = false ∧ s.waiter.vars.doExit = false ∧
    ∀ t, s.tx t = none

/-- no signalling transaction is in progress -/
def CondQuiet (s : CondSys T) : Prop := ∀ t, s.tx t = none

/-- the waiter is asleep with a value that is no longer the counter -/
def LostWakeup (s : CondSys T) : Prop :=
  s.waiter.pc = .asleep ∧ s.waiter.vars.condVal ≠ s.ev.event

/-- `futex_wait` does not put the waiter to sleep while a transaction is in progress that has
already issued the wake-up of its last signal -/
def SleepSafe (s : CondSys T) (e : CondAct T) : Prop :=
  e = .waiter → s.waiter.pc = .futexWait → s.ev.event = s.waiter.vars.condVal →
    ∀ t, (s.tx t).any SignalTx.signalled = false

/-! ## What one step keeps -/

/-- a sleeping waiter has the committed counter, and whoever has incremented it still has the
wake-up to do -/
def SleepInv (s : CondSys T) : Prop :=
  s.waiter.pc = .asleep →
    s.waiter.vars.condVal = s.ev.event ∧ ∀ t, (s.tx t).any SignalTx.signalled = false

theorem SleepInv.awake {s : CondSys T} (h : s.waiter.pc ≠ .asleep) : SleepInv s :=
  fun hp => absurd hp h

/-- the waiter falls asleep at `futex_wait` only, and with the value it compared -/
theorem waiterStep_asleep {ev : CondEvent} {w w' : CondWaiter} (h : waiterStep ev w = some w')
    (hp : w'.pc = .asleep) :
    w.pc = .futexWait ∧ ev.event = w.vars.condVal ∧ w'.vars = w.vars := by
  unfold waiterStep at h
  cases hpc : w.pc <;> simp only [hpc] at h
  case asleep | body | done => cases h
  case futexWait =>
    refine ⟨rfl, ?_⟩
    split at h
    · rename_i he
      cases h
      exact ⟨he, rfl⟩
    · cases h
      cases hp
  case beginTx =>
    cases h
    cases hp
  case endTx =>
    split at h
    · cases h
      cases hp
    · cases h
  all_goals
    split at h <;>
    · cases h
      cases hp

theorem futexWake_pc (w : CondWaiter) : (futexWake w).pc ≠ .asleep := by
  unfold futexWake
  split
  · exact fun h => nomatch h
  · assumption

theorem any_update {s : CondSys T} (h : ∀ u, (s.tx u).any SignalTx.signalled = false) (t : T)
    {x : Option SignalTx} (hx : x.any SignalTx.signalled = false) (u : T) :
    ((s.set t x).tx u).any SignalTx.signalled = false := by
  unfold CondSys.set
  by_cases hu : u = t
  · subst hu
    simpa using hx
  · simpa [Function.update_of_ne hu] using h u

theorem SignalTx.increment_signalled (ev : CondEvent) (x : SignalTx) :
    (x.increment ev).signalled = false := by
  unfold SignalTx.increment SignalTx.signalled
  cases x.read <;> simp

theorem SignalTx.publish_of_not_signalled {ev : CondEvent} {x : SignalTx}
    (h : x.signalled = false) (hw : x.waking = false) : x.publish ev = ev := by
  have hr : x.read.isSome = false := by
    unfold SignalTx.signalled at h
    simpa [hw] using h
  unfold SignalTx.publish
  simp [hr]

theorem sleepInv_step {s s' : CondSys T} {e : CondAct T} (hi : SleepInv s) (hok : SleepSafe s e)
    (h : condStep s e = some s') : SleepInv s' := by
  cases e with
  | waiter =>
    simp only [condStep, Option.map_eq_some_iff] at h
    obtain ⟨w, hw, rfl⟩ := h
    intro hp
    obtain ⟨hpc, hval, hvars⟩ := waiterStep_asleep hw hp
    refine ⟨?_, hok rfl hpc hval⟩
    show w.vars.condVal = s.ev.event
    rw [hvars, hval]
  | wait =>
    simp only [condStep] at h
    split at h
    · cases h
      exact .awake fun hp => nomatch hp
    · cases h
  | leave =>
    simp only [condStep] at h
    split at h
    · cases h
      exact .awake fun hp => nomatch hp
    · cases h
  | waiterAbort =>
    simp only [condStep] at h
    split at h
    · cases h
      exact .awake fun hp => nomatch hp
    · cases h
  | begin t =>
    simp only [condStep] at h
    split at h
    · cases h
      exact fun hp => ⟨(hi hp).1, any_update (hi hp).2 t rfl⟩
    · cases h
  | increment t =>
    simp only [condStep] at h
    split at h
    · split at h
      · cases h
      · cases h
        refine fun hp => ⟨(hi hp).1, any_update (hi hp).2 t ?_⟩
        rw [Option.any_some]
        exact SignalTx.increment_signalled _ _
    · cases h
  | signalBody t =>
    simp only [condStep] at h
    split at h
    · split at h
      · cases h
        exact .awake (futexWake_pc _)
      · cases h
    · cases h
  | commit t =>
    simp only [condStep] at h
    split at h
    · rename_i x hx
      split at h
      · rename_i hc
        cases h
        intro hp
        have hs := (hi hp).2 t
        rw [hx, Option.any_some] at hs
        have hw : x.waking = false := by
          rw [Bool.and_eq_true, Bool.not_eq_true'] at hc
          exact hc.1
        -- a transaction that has not signalled has nothing to publish
        have he : x.publish s.ev = s.ev := SignalTx.publish_of_not_signalled hs hw
        refine ⟨?_, any_update (hi hp).2 t rfl⟩
        rw [show (_ : CondEvent) = s.ev from he]
        exact (hi hp).1
      · cases h
    · cases h
  | abort t =>
    simp only [condStep] at h
    split at h
    · cases h
      exact fun hp => ⟨(hi hp).1, any_update (hi hp).2 t rfl⟩
    · cases h

theorem sleepInv_reach {s : CondSys T} (h : Reach condStep SleepSafe CondStart s) :
    SleepInv s := by
  refine h.inv ?_ ?_
  · intro s hs
    refine SleepInv.awake ?_
    rw [hs.1]
    exact fun hp => nomatch hp
  · intro s e s' hi hok hstep
    exact sleepInv_step hi hok hstep

/-- **No lost wake-up**, if `futex_wait` never puts the waiter to sleep between the wake-up of a
signalling transaction and its commit: in no state at all, and so in no state without a signalling
transaction. -/
theorem no_lost_wakeup {s : CondSys T} (h : Reach condStep SleepSafe CondStart s) :
    ¬ LostWakeup s := by
  intro hl
  exact hl.2 (sleepInv_reach h hl.1).1

end

/-! ## Two runs -/

def condStart : CondSys Unit where
  ev := { event := 0, loops := 0 }
  waiter :=
    { pc := .head
      vars := { doWait := false, condVal := 0, doExit := false }
      saved := { doWait := false, condVal := 0, doExit := false }
      read := none }
  tx := fun _ => none

/-- the waiter enters its block, finds its condition false and commits to wait; it stands before
`futex_wait` -/
def waiterUpToSleep : List (CondAct Unit) :=
  [.waiter, .waiter, .waiter, .wait, .waiter, .waiter, .waiter, .waiter]

theorem condStart_start : CondStart condStart := ⟨rfl, rfl, rfl, fun _ => rfl⟩

instance (s : CondSys Unit) (e : CondAct Unit) : Decidable (SleepSafe s e) :=
  inferInstanceAs (Decidable (e = .waiter → s.waiter.pc = .futexWait →
    s.ev.event = s.waiter.vars.condVal → ∀ t, (s.tx t).any SignalTx.signalled = false))

/-- one signal is committed before the waiter looks, and it goes to sleep with the counter at 1 -/
theorem no_lost_wakeup_run :
    ∃ s : CondSys Unit, Reach condStep SleepSafe CondStart s ∧ CondQuiet s ∧
      s.waiter.pc = .asleep ∧ s.ev.event = 1 ∧ ¬ LostWakeup s := by
  have hrun : ∃ s, run (guarded condStep SleepSafe) condStart
      ([.begin (), .increment (), .signalBody (), .commit ()] ++ waiterUpToSleep ++ [.waiter])
        = some s ∧ s.waiter.pc = .asleep ∧ s.ev.event = 1 ∧ CondQuiet s := by
    refine ⟨_, rfl, ?_, ?_, ?_⟩
    · rfl
    · rfl
    · intro t
      rfl
  obtain ⟨s, hs, hp, he, hq⟩ := hrun
  have hr : Reach condStep SleepSafe CondStart s :=
    (reach_of_guarded _ hs).mono_init fun _ h => h ▸ condStart_start
  exact ⟨s, hr, hq, hp, he, no_lost_wakeup hr⟩

/-- the transaction begins after the waiter's has committed; it increments and wakes nobody, the
waiter sees the old counter and goes to sleep, and the transaction commits -/
theorem wakeup_lost :
    ∃ s : CondSys Unit, Reach condStep any CondStart s ∧ CondQuiet s ∧ LostWakeup s := by
  have hrun : ∃ s, run condStep condStart
      (waiterUpToSleep.dropLast ++
        [.begin (), .increment (), .signalBody (), .waiter, .waiter, .commit ()])
        = some s ∧ CondQuiet s ∧ LostWakeup s := by
    refine ⟨_, rfl, ?_, ?_⟩
    · intro t
      rfl
    · refine ⟨rfl, ?_⟩
      decide
  obtain ⟨s, hs, hq, hl⟩ := hrun
  exact ⟨s, (reach_of_run _ hs).mono_init fun _ h => h ▸ condStart_start, hq, hl⟩

end XCalls
