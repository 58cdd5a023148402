import XCalls.XCall.FdLocks

/-!
# `txc_koa_detach_fd` that fails

The function clears the entry of the map before it searches the descriptors of the KOA, and leaves
without unlocking when the map has no entry.

* `DetachFails`     the two tests that return `TXC_R_FAILURE`;
* `NothingChanged`  the manager and the locks of the descriptors are as before;
* `detach_failure_iff`   a call keeps the promise of a failure exactly when it succeeds, or when
                    the descriptor has no KOA and the call did not lock it;
* `detach_unmaps_other`  a failing call takes another file's KOA from its descriptor.
-/

set_option linter.unusedSectionVars false

namespace XCalls
open Prog
variable {T : Type} [DecidableEq T] {n N : Nat}

/-- the descriptor has no KOA, or is not in the array of this one -/
def DetachFails (m : KoaMgr T n N) (k : Fin N) (fd : Nat) : Prop :=
  m.map fd = none ∨ fd ∉ (m.koa k).fds

/-- the map, the counters and arrays of all KOAs, the alias cache and the locks -/
def NothingChanged (s s' : XMach T n N × FdLocks) : Prop :=
  s'.1.world.koamgr = s.1.world.koamgr ∧ s'.2.held = s.2.held

theorem indexOf_eq_none (v : Koa n) (fd : Nat) : v.indexOf fd = none ↔ fd ∉ v.fds := by
  unfold Koa.indexOf Koa.fds
  rw [List.find?_eq_none]
  simp only [List.mem_map, List.mem_range, not_exists, not_and, decide_eq_true_eq]

theorem koaDetachFd_fails (m : KoaMgr T n N) (k : Fin N) (fd : Nat) :
    (koaDetachFd m k fd).1 = false ↔ DetachFails m k fd := by
  unfold DetachFails koaDetachFd
  cases hmap : m.map fd with
  | none => simp
  | some k' =>
    rw [← indexOf_eq_none]
    cases hi : (m.koa k).indexOf fd <;> simp [hi]

theorem koaDetachFd_clears {m : KoaMgr T n N} {k : Fin N} {fd : Nat} (hmap : m.map fd ≠ none)
    (hfd : fd ∉ (m.koa k).fds) :
    (koaDetachFd m k fd).2 = { m with map := Function.update m.map fd none } := by
  obtain ⟨k', hk'⟩ := Option.ne_none_iff_exists'.mp hmap
  have hi := (indexOf_eq_none (m.koa k) fd).mpr hfd
  unfold koaDetachFd
  rw [hk']
  simp only [hi]

section
variable {s s' : XMach T n N × FdLocks} {k : Fin N} {fd : Nat} {lock b : Bool}

theorem lockHandle_detachFd
    (h : lockHandle (.detachFd k fd lock : Instr n N Bool) s = some (b, s')) :
    b = (koaDetachFd s.1.world.koamgr k fd).1 ∧
      s'.1.world.koamgr = (koaDetachFd s.1.world.koamgr k fd).2 ∧
      (lock = false → s'.2 = s.2) ∧
      (lock = true → fd ∉ s.2.held ∧
        s'.2.held = if s.1.world.koamgr.map fd = none then insert fd s.2.held else s.2.held) := by
  simp only [lockHandle, handle, Option.bind_some] at h
  cases lock with
  | false =>
    cases h
    exact ⟨rfl, rfl, fun _ => rfl, (fun hc => by cases hc)⟩
  | true =>
    obtain ⟨l, hl, h2⟩ := Option.map_eq_some_iff.mp h
    obtain ⟨hfd, rfl⟩ := FdLocks.lock_eq_some hl
    cases h2
    refine ⟨rfl, rfl, (fun hc => by cases hc), fun _ => ⟨hfd, ?_⟩⟩
    by_cases hmap : s.1.world.koamgr.map fd = none
    · simp only [hmap, if_true]
    · simp only [hmap, if_false, FdLocks.unlock, Finset.erase_insert hfd]

/-- **A failure that changes nothing.**  For every state of the manager, every KOA, descriptor and
flag: a call that returns has changed nothing in the case of a failure exactly when it does not fail,
or the descriptor has no KOA and the call does not lock it. -/
theorem detach_failure_iff
    (h : lockHandle (.detachFd k fd lock : Instr n N Bool) s = some (b, s')) :
    (b = false → NothingChanged s s') ↔
      ¬ DetachFails s.1.world.koamgr k fd ∨ s.1.world.koamgr.map fd = none ∧ lock = false := by
  obtain ⟨hb, hmgr, hfree, hlock⟩ := lockHandle_detachFd h
  have hfail : b = false ↔ DetachFails s.1.world.koamgr k fd := by
    rw [hb]
    exact koaDetachFd_fails _ _ _
  rw [hfail]
  constructor
  · intro hkeep
    by_cases hf : DetachFails s.1.world.koamgr k fd
    · obtain ⟨hk, hl⟩ := hkeep hf
      by_cases hmap : s.1.world.koamgr.map fd = none
      · -- the lock that is kept is one more
        refine .inr ⟨hmap, ?_⟩
        cases lock with
        | false => rfl
        | true =>
          obtain ⟨hout, hheld⟩ := hlock rfl
          rw [if_pos hmap, hl] at hheld
          exact absurd (hheld ▸ Finset.mem_insert_self fd s.2.held) hout
      · have hfd := hf.resolve_left hmap
        rw [hmgr, koaDetachFd_clears hmap hfd] at hk
        have hentry := congrFun (congrArg (fun m : KoaMgr T n N => m.map) hk) fd
        simp only [Function.update_self] at hentry
        exact absurd hentry.symm hmap
    · exact .inl hf
  · rintro (hno | ⟨hmap, rfl⟩) hf
    · exact absurd hf hno
    · refine ⟨?_, by rw [hfree rfl]⟩
      rw [hmgr, koaDetachFd, hmap]

end

/-- descriptor 7 has no KOA and is not locked -/
theorem detach_failure_iff_unmapped :
    ∃ s', lockHandle (.detachFd 0 7 false : Instr 8 8 Bool) (smallMach smallKernel, FdLocks.free)
        = some (false, s') ∧
      NothingChanged (smallMach smallKernel, FdLocks.free) s' := by
  have hmap : (smallMach smallKernel).world.koamgr.map 7 = none := by decide +kernel
  have hdetach : koaDetachFd (smallMach smallKernel).world.koamgr 0 7
      = (false, (smallMach smallKernel).world.koamgr) := by
    rw [koaDetachFd, hmap]
  have hrun : lockHandle (.detachFd 0 7 false : Instr 8 8 Bool)
      (smallMach smallKernel, FdLocks.free)
        = some (false, (smallMach smallKernel, FdLocks.free)) := by
    simp only [lockHandle, handle, hdetach, Option.bind_some]
    rfl
  exact ⟨_, hrun, (detach_failure_iff hrun).mpr (.inr ⟨hmap, rfl⟩) rfl⟩

/-- a file is open as 3 and 4; descriptor 3 is closed, and the kernel hands it out for another file -/
def reusedMgr : Option (Fin 8 × Fin 8 × KoaMgr Unit 8 8) := do
  let m ← koamgrCreate Unit 8 8
  let (koa, m) ← koaCreate m .file 1
  let m ← koaAttachFd m koa 3
  let m ← koaAttachFd m koa 4
  let m := (koaDetachFd m koa 3).2
  let (koa', m) ← koaCreate m .file 2
  let m ← koaAttachFd m koa' 3
  return (koa, koa', m)

/-- the second `x_close_commit` of that descriptor: the call fails, and has taken the KOA of the
other file from it -/
theorem detach_unmaps_other :
    ∃ koa koa' m s', reusedMgr = some (koa, koa', m) ∧ koa ≠ koa' ∧ m.map 3 = some koa' ∧
      lockHandle (.detachFd koa 3 false : Instr 8 8 Bool)
        ({ smallMach smallKernel with
            world := { (smallMach smallKernel).world with koamgr := m } }, FdLocks.free)
        = some (false, s') ∧
      s'.1.world.koamgr.map 3 = none := by
  have hrun : reusedMgr.map (fun r => (r.1, r.2.1, r.2.2.map 3, (koaDetachFd r.2.2 r.1 3).1,
      (koaDetachFd r.2.2 r.1 3).2.map 3)) = some (3, 4, some 4, false, none) := by
    decide +kernel
  obtain ⟨⟨koa, koa', m⟩, hm, heq⟩ := Option.map_eq_some_iff.mp hrun
  simp only [Prod.mk.injEq] at heq
  obtain ⟨rfl, rfl, hmap, hfail, hcleared⟩ := heq
  refine ⟨3, 4, m, ({ smallMach smallKernel with
      world := { (smallMach smallKernel).world with koamgr := (koaDetachFd m 3 3).2 } },
    FdLocks.free), hm, by decide, hmap, ?_, hcleared⟩
  simp only [lockHandle, handle, Option.bind_some, hfail]
  rfl

end XCalls
