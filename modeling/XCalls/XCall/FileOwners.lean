import XCalls.Core.Sentinel
import XCalls.XCall.FileLocal

/-!
# Who holds a file

* `owner`        the thread that holds the sentinel of a file;
* `held_owner`   the files that a thread holds;
* `SentinelsOk`   the mutexes, the owners and the lists of the threads fit together;
* `SentinelsOk.lock`, `SentinelsOk.busy`, `SentinelsOk.release`   what the sentinel manager does to
                 them: a thread only gets mutexes that are free, and only gives up its own.
-/

set_option linter.unusedSectionVars false

namespace XCalls
variable {T : Type} [DecidableEq T] {n N : Nat}

/-! ## owners -/

def FileEnv.One (E : FileEnv n N) : Prop := ∀ f x y, E.Guards x f → E.Guards y f → x = y

open Classical in
/-- the holder of the sentinel of a file -/
noncomputable def owner (E : FileEnv n N) (mutex : Fin n → Option T) (f : FileId) : Option T :=
  if h : ∃ x, E.Guards x f then mutex h.choose else none

section
variable {E : FileEnv n N} {mutex mutex' : Fin n → Option T} {f : FileId} {x : Fin n} {t : T}

theorem owner_eq (hone : E.One) (hx : E.Guards x f) : owner E mutex f = mutex x := by
  have h : ∃ x, E.Guards x f := ⟨x, hx⟩
  rw [owner, dif_pos h, hone f _ x h.choose_spec hx]

theorem owner_none (h : ∀ x, ¬ E.Guards x f) : owner E mutex f = none :=
  dif_neg fun ⟨x, hx⟩ => h x hx

theorem held_owner (hone : E.One) (mutex : Fin n → Option T) (t : T) :
    TwoPhase.held (owner E mutex) t = E.files {x | mutex x = some t} := by
  ext f
  constructor
  · intro hf
    by_cases h : ∃ x, E.Guards x f
    · obtain ⟨x, hx⟩ := h
      exact ⟨x, (owner_eq hone hx).symm.trans hf, hx⟩
    · cases (owner_none fun x hx => h ⟨x, hx⟩).symm.trans hf
  · rintro ⟨x, hm, hx⟩
    exact (owner_eq hone hx).trans hm

theorem owner_change (hone : E.One) {P : Option T → Option T → Prop}
    (h : ∀ x, mutex' x = mutex x ∨ P (mutex x) (mutex' x)) (f : FileId) :
    owner E mutex' f = owner E mutex f ∨ P (owner E mutex f) (owner E mutex' f) := by
  by_cases hf : ∃ x, E.Guards x f
  · obtain ⟨x, hx⟩ := hf
    rw [owner_eq hone hx, owner_eq hone hx]
    exact h x
  · rw [owner_none fun x hx => hf ⟨x, hx⟩, owner_none fun x hx => hf ⟨x, hx⟩]
    exact Or.inl rfl

end

/-! ## sentinels -/

/-- the owner of a sentinel holds its mutex, and so does a thread for each entry of its list that is
acquired -/
structure SentinelsOk (mgr : SentinelMgr T n) (lists : T → List (SentinelEntry (Fin n))) :
    Prop where
  owner : ∀ x, (mgr.sentinel x).owner = (mgr.sentinel x).mutex
  entries : ∀ t, ∀ e ∈ lists t, e.acquired = true → (mgr.sentinel e.sentinel).mutex = some t

section
variable {mgr : SentinelMgr T n} {lists : T → List (SentinelEntry (Fin n))} {t : T} {x : Fin n}

theorem releaseEntry_sentinel (b : Bool) (mgr : SentinelMgr T n) (e : SentinelEntry (Fin n))
    (x : Fin n) :
    ((releaseEntry b mgr e).sentinel x).mutex
        = (if e.acquired = true ∧ x = e.sentinel then none else (mgr.sentinel x).mutex) ∧
      ((releaseEntry b mgr e).sentinel x).owner
        = if e.acquired = true ∧ x = e.sentinel then none else (mgr.sentinel x).owner := by
  have hdetach : ∀ m : SentinelMgr T n,
      ((sentinelDetach m e.sentinel).sentinel x).mutex = (m.sentinel x).mutex ∧
        ((sentinelDetach m e.sentinel).sentinel x).owner = (m.sentinel x).owner := by
    intro m
    have hd : (sentinelDetach m e.sentinel).sentinel x
        = (m.set e.sentinel { m.sentinel e.sentinel with
            refcnt := (m.sentinel e.sentinel).refcnt - 1 }).sentinel x := by
      unfold sentinelDetach
      dsimp only
      split <;> rfl
    rw [hd, SentinelMgr.set_sentinel]
    by_cases hx : x = e.sentinel
    · rw [if_pos hx, hx]
      exact ⟨rfl, rfl⟩
    · rw [if_neg hx]
      exact ⟨rfl, rfl⟩
  have hunlock : ((if e.acquired then sentinelUnlock mgr e.sentinel else mgr).sentinel x).mutex
        = (if e.acquired = true ∧ x = e.sentinel then none else (mgr.sentinel x).mutex) ∧
      ((if e.acquired then sentinelUnlock mgr e.sentinel else mgr).sentinel x).owner
        = if e.acquired = true ∧ x = e.sentinel then none else (mgr.sentinel x).owner := by
    by_cases ha : e.acquired = true
    · rw [if_pos ha]
      unfold sentinelUnlock
      rw [SentinelMgr.set_sentinel]
      by_cases hx : x = e.sentinel
      · rw [if_pos hx, if_pos ⟨ha, hx⟩, if_pos ⟨ha, hx⟩]
        exact ⟨rfl, rfl⟩
      · rw [if_neg hx, if_neg fun h => hx h.2, if_neg fun h => hx h.2]
        exact ⟨rfl, rfl⟩
    · rw [if_neg ha, if_neg fun h => ha h.1, if_neg fun h => ha h.1]
      exact ⟨rfl, rfl⟩
  rw [← hunlock.1, ← hunlock.2]
  unfold releaseEntry
  dsimp only
  split
  · exact hdetach _
  · split
    · exact hdetach _
    · exact ⟨rfl, rfl⟩

/-- a list is released: the mutexes of its acquired entries become free -/
theorem listRelease_mutex (b : Bool) (l : List (SentinelEntry (Fin n))) : ∀ (mgr : SentinelMgr T n),
    (∀ x, (mgr.sentinel x).owner = (mgr.sentinel x).mutex) →
    (∀ x, ((sentinelListRelease b mgr l).sentinel x).owner
        = ((sentinelListRelease b mgr l).sentinel x).mutex) ∧
      ∀ x, ((sentinelListRelease b mgr l).sentinel x).mutex
          = (mgr.sentinel x).mutex ∨
        (∃ e ∈ l, e.acquired = true ∧ e.sentinel = x) ∧
          ((sentinelListRelease b mgr l).sentinel x).mutex = none := by
  induction l with
  | nil => exact fun mgr h => ⟨h, fun x => Or.inl rfl⟩
  | cons e l ih =>
    intro mgr h
    have hstep : ∀ x, ((releaseEntry b mgr e).sentinel x).owner
        = ((releaseEntry b mgr e).sentinel x).mutex := by
      intro x
      rw [(releaseEntry_sentinel b mgr e x).1, (releaseEntry_sentinel b mgr e x).2, h x]
    obtain ⟨howner, hmutex⟩ := ih (releaseEntry b mgr e) hstep
    refine ⟨howner, fun x => ?_⟩
    show ((sentinelListRelease b (releaseEntry b mgr e) l).sentinel x).mutex = _ ∨ _
    have hx := (releaseEntry_sentinel b mgr e x).1
    rcases hmutex x with heq | ⟨⟨e', he', ha, hs⟩, hnone⟩
    · by_cases hc : e.acquired = true ∧ x = e.sentinel
      · rw [if_pos hc] at hx
        exact Or.inr ⟨⟨e, List.mem_cons_self, hc.1, hc.2.symm⟩, heq.trans hx⟩
      · rw [if_neg hc] at hx
        exact Or.inl (heq.trans hx)
    · exact Or.inr ⟨⟨e', List.mem_cons_of_mem _ he', ha, hs⟩, hnone⟩

/-- **A thread releases its list**, and nobody else's mutex. -/
theorem SentinelsOk.release (h : SentinelsOk mgr lists) (b : Bool) (t : T) :
    SentinelsOk (sentinelListRelease b mgr (lists t)) (Function.update lists t []) ∧
      ∀ x, ((sentinelListRelease b mgr (lists t)).sentinel x).mutex = (mgr.sentinel x).mutex ∨
        (mgr.sentinel x).mutex = some t ∧
          ((sentinelListRelease b mgr (lists t)).sentinel x).mutex = none := by
  obtain ⟨howner, hmutex⟩ := listRelease_mutex b (lists t) mgr h.owner
  have hmine : ∀ x, ((sentinelListRelease b mgr (lists t)).sentinel x).mutex
        = (mgr.sentinel x).mutex ∨
      (mgr.sentinel x).mutex = some t ∧
        ((sentinelListRelease b mgr (lists t)).sentinel x).mutex = none := by
    intro x
    rcases hmutex x with heq | ⟨⟨e, he, ha, rfl⟩, hnone⟩
    · exact Or.inl heq
    · exact Or.inr ⟨h.entries t e he ha, hnone⟩
  refine ⟨⟨howner, fun u e he ha => ?_⟩, hmine⟩
  rw [Function.update_apply] at he
  split at he
  · cases he
  · rename_i hu
    have hm := h.entries u e he ha
    rcases hmine e.sentinel with heq | ⟨ht, -⟩
    · exact heq.trans hm
    · exact absurd (Option.some.inj (hm.symm.trans ht)) hu

theorem sentinelLock_mutex (mgr : SentinelMgr T n) (t : T) (x y : Fin n) :
    ((sentinelLock mgr t x).sentinel y).mutex
        = (if y = x then some t else (mgr.sentinel y).mutex) ∧
      ((sentinelLock mgr t x).sentinel y).owner
        = if y = x then some t else (mgr.sentinel y).owner := by
  unfold sentinelLock
  rw [SentinelMgr.set_sentinel]
  split <;> exact ⟨rfl, rfl⟩

theorem sentinelAttach_mutex (mgr : SentinelMgr T n) (x y : Fin n) :
    ((sentinelAttach mgr x).sentinel y).mutex = (mgr.sentinel y).mutex ∧
      ((sentinelAttach mgr x).sentinel y).owner = (mgr.sentinel y).owner := by
  unfold sentinelAttach
  rw [SentinelMgr.set_sentinel]
  split
  · rename_i h
    rw [h]
    exact ⟨rfl, rfl⟩
  · exact ⟨rfl, rfl⟩

/-- **A thread takes a mutex that is free**, with an entry for it. -/
theorem SentinelsOk.lock (h : SentinelsOk mgr lists) {mgr' : SentinelMgr T n}
    (hx : (mgr.sentinel x).mutex = none)
    (hmutex : ∀ y, (mgr'.sentinel y).mutex = if y = x then some t else (mgr.sentinel y).mutex)
    (howner : ∀ y, (mgr'.sentinel y).owner = if y = x then some t else (mgr.sentinel y).owner)
    (status : UInt32) :
    SentinelsOk mgr' (Function.update lists t (lists t ++ [⟨x, status⟩])) where
  owner y := by
    rw [hmutex, howner, h.owner]
  entries u e he ha := by
    rw [hmutex]
    split
    · rename_i hex
      rw [Function.update_apply] at he
      split at he
      · rename_i hu
        rw [hu]
      · have hm := h.entries u e he ha
        rw [hex, hx] at hm
        cases hm
    · rename_i hex
      rw [Function.update_apply] at he
      split at he
      · rename_i hu
        rcases List.mem_append.mp he with he | he
        · exact hu ▸ h.entries t e he ha
        · exact absurd (congrArg SentinelEntry.sentinel (List.mem_singleton.mp he)) hex
      · exact h.entries u e he ha

/-- a thread gets an entry that is not acquired -/
theorem SentinelsOk.busy (h : SentinelsOk mgr lists) {mgr' : SentinelMgr T n}
    (hmutex : ∀ y, (mgr'.sentinel y).mutex = (mgr.sentinel y).mutex)
    (howner : ∀ y, (mgr'.sentinel y).owner = (mgr.sentinel y).owner)
    {e₀ : SentinelEntry (Fin n)} (he₀ : e₀.acquired = false) :
    SentinelsOk mgr' (Function.update lists t (lists t ++ [e₀])) where
  owner y := by
    rw [hmutex, howner, h.owner]
  entries u e he ha := by
    rw [hmutex]
    rw [Function.update_apply] at he
    split at he
    · rename_i hu
      rcases List.mem_append.mp he with he | he
      · exact hu ▸ h.entries t e he ha
      · rw [List.mem_singleton.mp he, he₀] at ha
        cases ha
    · exact h.entries u e he ha

end

end XCalls
