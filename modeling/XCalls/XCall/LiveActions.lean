import XCalls.XCall.KoaCalls

/-!
# Actions and KOAs of the pool

An action that has detached from a KOA may have returned it to the pool.

* `Instr.OnLive`      the KOA that is locked, unlocked or detached is out of the pool;
* `XAction.TouchesLive`   so for every step of an action;
* `XAction.Referenced`    a path action leaves its KOAs a reference, and a descriptor is listed in
                      the KOA that `x_close_commit` is called with;
* `actions_touch_live`   whatever the calls and the outcome, actions that find this touch no KOA of
                      the pool.
-/

set_option linter.unusedSectionVars false

namespace XCalls
open Prog
variable {T : Type} [DecidableEq T] {n N : Nat}

/-! ## what is touched -/

/-- the KOA that is passed to `txc_koa_lock_fds_refby_koa`, `txc_koa_unlock_fds_refby_koa`,
`txc_koa_detach` or `txc_koa_detach_fd` -/
def Instr.touched : ∀ {β : Type}, Instr n N β → Option (Fin N)
  | _, .lockFdsRefbyKoa k => some k
  | _, .unlockFdsRefbyKoa k => some k
  | _, .detachKoa k => some k
  | _, .detachFd k _ _ => some k
  | _, _ => none

def Instr.OnLive {β : Type} (i : Instr n N β) (m : Koas n N) : Prop :=
  ∀ k, i.touched = some k → k ∉ m.free

/-- every step of the action touches only KOAs that are out of the pool at that moment -/
def XAction.TouchesLive (a : XAction N) (m : XMach T n N) : Prop :=
  guarded (stepsOf handle) (fun i m => i.OnLive m.world.koamgr.koas)
    (a.prog : XProg n N Int) (fun _ _ => True) m

/-- `P` holds of every action of the list in the state in which it is called -/
def Along (P : XAction N → XMach T n N → Prop) : List (XEntry N) → XMach T n N → Prop
  | [], _ => True
  | e :: es, m =>
    (match e.function with
      | .other a => P a m
      | _ => True) ∧ Along P es (callEntry exec e m).1

/-- the KOA that `x_close_commit` is called with -/
def XAction.closes : XAction N → List (Fin N)
  | .closeCommit _ k => [k]
  | _ => []

/-- `x_rename_commit`, `x_rename_undo` and `x_unlink_commit` drop fewer references to a KOA than it
has, and the KOA of `x_close_commit` still lists a descriptor -/
def XAction.Referenced (a : XAction N) (m : XMach T n N) : Prop :=
  (∀ k ∈ a.koas, (a.koas.count k : Int) < (m.world.koamgr.koas.koa k).refcnt) ∧
    ∀ k ∈ a.closes, 0 < (m.world.koamgr.koas.koa k).fdRefcnt

instance (a : XAction N) (m : XMach T n N) : Decidable (a.Referenced m) :=
  inferInstanceAs (Decidable (_ ∧ _))

def decAlong {P : XAction N → XMach T n N → Prop} (dec : ∀ a m, Decidable (P a m)) :
    ∀ (es : List (XEntry N)) (m : XMach T n N), Decidable (Along P es m)
  | [], _ => isTrue trivial
  | e :: es, m =>
    have : Decidable (match e.function with
        | .other a => P a m
        | _ => True) :=
      match e.function with
      | .other a => dec a m
      | .sentinelmgrCommit => isTrue trivial
      | .sentinelmgrUndo => isTrue trivial
    have := decAlong dec es (callEntry exec e m).1
    inferInstanceAs (Decidable (_ ∧ _))

instance {P : XAction N → XMach T n N → Prop} [dec : ∀ a m, Decidable (P a m)]
    (es : List (XEntry N)) (m : XMach T n N) : Decidable (Along P es m) := decAlong dec es m

/-! ## the steps of an action -/

/-- the instruction neither touches nor changes KOAs -/
def Instr.Still : ∀ {β : Type}, Instr n N β → Prop
  | _, .lockFdsRefbyKoa _ => False
  | _, .unlockFdsRefbyKoa _ => False
  | _, .createKoa _ => False
  | _, .createKoaOf _ => False
  | _, .attachKoa _ => False
  | _, .detachKoa _ => False
  | _, .attachFd _ _ _ => False
  | _, .detachFd _ _ _ => False
  | _, _ => True

def liveGuard : ∀ {β : Type}, Instr n N β → LifeView n N → Prop := fun i v => i.OnLive v.koas

section
variable {α : Type} {v : LifeView n N} {Q : Except Stop α → LifeView n N → Prop}
  {k : Fin N} {fd : Nat} {pend : List (Nat × Fin N)} {refs refs' : Fin N → Nat}

theorem lifeStep_still {β : Type} {i : Instr n N β} {b : β} {v' : LifeView n N} (hi : i.Still)
    (h : lifeStep T i b v v') : v'.koas = v.koas := by
  cases i with
  | lockFdsRefbyKoa | unlockFdsRefbyKoa | createKoa | createKoaOf | attachKoa | detachKoa | attachFd
  | detachFd => exact hi.elim
  | getXactstate | lookupInode | lookupFd2koa => rw [h.2]
  | libcOpen | libcDup | libcSocket =>
    cases b with
    | error e => exact congrArg LifeView.koas h
    | ok fd =>
      obtain ⟨-, _, rfl⟩ := h
      rfl
  | libcPipe =>
    cases b with
    | error e => exact congrArg LifeView.koas h
    | ok fds =>
      obtain ⟨-, -, _, _, rfl⟩ := h
      rfl
  | libcClose =>
    obtain ⟨_, -, rfl⟩ := h
    rfl
  | registerCommitAction | registerUndoAction =>
    cases h
    rfl
  | _ => exact congrArg LifeView.koas h

theorem still_touched {β : Type} {i : Instr n N β} (hi : i.Still) : i.touched = none := by
  cases i with
  | lockFdsRefbyKoa | unlockFdsRefbyKoa | detachKoa | detachFd => exact hi.elim
  | _ => rfl

theorem guarded_still {β : Type} {i : Instr n N β} {f : β → XProg n N α} {κ : Koas n N} (hi : i.Still)
    (hv : v.koas = κ) (hf : ∀ b v', v'.koas = κ → guarded (lifeStep T) liveGuard (f b) Q v') :
    guarded (lifeStep T) liveGuard (op i f) Q v := by
  refine ⟨fun k hk => ?_, fun b v' hb => hf b v' ?_⟩
  · rw [still_touched hi] at hk
    cases hk
  · exact (lifeStep_still hi hb).trans hv

theorem guarded_rest {p : XProg n N α} {κ : Koas n N} (hp : All (fun _ => Instr.Still) p)
    (hv : v.koas = κ) (hQ : ∀ r v', v'.koas = κ → Q r v') : guarded (lifeStep T) liveGuard p Q v := by
  induction p generalizing v with
  | ret a => exact hQ _ _ hv
  | stop e => exact hQ _ _ hv
  | op i f ih => exact guarded_still hp.1 hv fun b v' hv' => ih b (hp.2 b) hv'

/-- the descriptors of a KOA are locked or unlocked -/
theorem guarded_locks {i : Instr n N Unit} {f : Unit → XProg n N α}
    (hi : i = .lockFdsRefbyKoa k ∨ i = .unlockFdsRefbyKoa k) (hk : k ∉ v.koas.free)
    (hf : guarded (lifeStep T) liveGuard (f ()) Q v) :
    guarded (lifeStep T) liveGuard (op i f) Q v := by
  rcases hi with rfl | rfl
  all_goals
    refine ⟨fun x hx => ?_, fun b v' hb => ?_⟩
    · cases hx
      exact hk
    · obtain rfl : v' = v := hb
      exact hf

theorem guarded_detachFd {lock : Bool} {f : Bool → XProg n N α} (h : Held v.koas pend refs)
    (hk : k ∉ v.koas.free) (hatt : v.koas.map fd ≠ none → Attached v.koas pend fd k)
    (hf : ∀ b v', Held v'.koas pend refs → (∀ x, x ≠ fd → v'.koas.map x = v.koas.map x) →
      guarded (lifeStep T) liveGuard (f b) Q v') :
    guarded (lifeStep T) liveGuard (op (.detachFd k fd lock) f) Q v := by
  refine ⟨fun x hx => ?_, fun b v' hb => ?_⟩
  · cases hx
    exact hk
  · obtain ⟨m, _, hm, rfl, rfl⟩ := hb
    rw [← hm] at h hatt
    refine hf b _ (h.detachFd hatt) fun x hx => ?_
    rw [← hm]
    exact koaDetachFd_map m k fd hx

/-- a reference is dropped that is not the last -/
theorem guarded_detach {f : Unit → XProg n N α} (h : Held v.koas pend refs)
    (hk : refs k = refs' k + 1) (ho : ∀ x, x ≠ k → refs' x = refs x)
    (hmore : 1 < (v.koas.koa k).refcnt)
    (hf : ∀ v', Held v'.koas pend refs' → v'.koas.free = v.koas.free → v'.koas.map = v.koas.map →
      (∀ x, (v'.koas.koa x).refcnt = (v.koas.koa x).refcnt - if x = k then 1 else 0) →
      guarded (lifeStep T) liveGuard (f ()) Q v') :
    guarded (lifeStep T) liveGuard (op (.detachKoa k) f) Q v := by
  have hlive : k ∉ v.koas.free := h.taken k (by omega)
  refine ⟨fun x hx => ?_, fun b v' hb => ?_⟩
  · cases hx
    exact hlive
  · obtain ⟨m, _, hm, rfl, rfl⟩ := hb
    rw [← hm] at h hmore
    have hne : ¬ (m.koa k).refcnt - 1 = 0 := by
      change 1 < (m.koa k).refcnt at hmore
      omega
    refine hf _ (h.detach hk ho) ?_ ?_ fun x => ?_
    · show (countDetach m k).free = v.koas.free
      rw [countDetach_free, if_neg hne, ← hm]
      rfl
    · show (countDetach m k).map = v.koas.map
      rw [countDetach_map, ← hm]
      rfl
    · show ((countDetach m k).koa x).refcnt = _
      rw [countDetach_koa, ← hm]
      split
      · rename_i hx
        subst hx
        rfl
      · exact (Int.sub_zero _).symm

/-! ## the actions -/

theorem close_live (h : Held v.koas pend refs) (hk : k ∉ v.koas.free)
    (hatt : v.koas.map fd ≠ none → Attached v.koas pend fd k) :
    guarded (lifeStep T) liveGuard (xCloseCommit fd k : XProg n N Int)
      (fun _ v' => Held v'.koas pend refs ∧ ∀ x, x ≠ fd → v'.koas.map x = v.koas.map x) v := by
  simp only [xCloseCommit, call_bind, pure_eq]
  refine guarded_still trivial rfl fun _ v₁ h₁ => guarded_still trivial h₁ fun _ v₂ h₂ => ?_
  rw [← h₂] at h hk hatt ⊢
  refine guarded_detachFd h hk hatt fun b v₃ h₃ hmap => ?_
  refine guarded_rest ?_ rfl fun _ v₄ h₄ => ?_
  · cases b
    all_goals repeat' first | exact trivial | refine all_op trivial fun _ => ?_
  · rw [h₄]
    exact ⟨h₃, hmap⟩

/-- the descriptor `fd` is attached to `k`, and is detached -/
theorem detachFd_live {lock : Bool} {f : Bool → XProg n N α}
    (hf : ∀ b, All (fun _ => Instr.Still) (f b)) (h : Held v.koas pend refs)
    (hmap : v.koas.map fd = some k)
    (hQ : ∀ r v', Held v'.koas pend refs → (∀ x, x ≠ fd → v'.koas.map x = v.koas.map x) → Q r v') :
    guarded (lifeStep T) liveGuard (op (.detachFd k fd lock) f) Q v := by
  refine guarded_detachFd h (h.attached fd k (Or.inl hmap)) (fun _ => Or.inl hmap)
    fun b v' h' hmap' => ?_
  refine guarded_rest (hf b) rfl fun r v₄ h₄ => hQ r v₄ ?_ ?_
  · rw [h₄]
    exact h'
  · rw [h₄]
    exact hmap'

theorem count_cons_if (y x : Fin N) (l : List (Fin N)) :
    (y :: l).count x = (if x = y then 1 else 0) + l.count x := by
  by_cases hx : x = y
  · subst hx
    rw [List.count_cons_self, if_pos rfl, Nat.add_comm]
  · rw [List.count_cons_of_ne (Ne.symm hx), if_neg hx, Nat.zero_add]

/-- the start of the actions of `x_rename`: no KOA loses its last reference -/
theorem guarded_renameDetach {args : RenameArgs N} {f : Unit → XProg n N α}
    (h : Held v.koas pend refs)
    (hrefs : ∀ x, refs x
      = refs' x + (args.oldpathKoa :: (args.newpathKoa.map Prod.fst).toList).count x)
    (hmore : ∀ x ∈ args.oldpathKoa :: (args.newpathKoa.map Prod.fst).toList,
      ((args.oldpathKoa :: (args.newpathKoa.map Prod.fst).toList).count x : Int)
        < (v.koas.koa x).refcnt)
    (hf : ∀ v', Held v'.koas pend refs' → v'.koas.free = v.koas.free → v'.koas.map = v.koas.map →
      guarded (lifeStep T) liveGuard (f ()) Q v') :
    guarded (lifeStep T) liveGuard (xRenameDetach args >>= f) Q v := by
  obtain ⟨old, newpathKoa, oldpath, newpath⟩ := args
  have hold : old ∉ v.koas.free := by
    refine h.taken old ?_
    rw [hrefs, List.count_cons_self]
    omega
  cases newpathKoa with
  | none =>
    simp only [xRenameDetach, call_bind, op_bind, ret_bind, pure_eq]
    simp only [Option.map_none, Option.toList_none] at hrefs hmore
    refine guarded_still trivial rfl fun _ v₁ h₁ => ?_
    rw [← h₁] at h hold hmore hf
    refine guarded_locks (Or.inl rfl) hold ?_
    refine guarded_detach h (by rw [hrefs]; simp) (fun x hx => ?_)
      (by simpa using hmore old) fun v₂ h₂ hfree hmap _ => hf v₂ h₂ hfree hmap
    rw [hrefs x, List.count_cons_of_ne (Ne.symm hx)]
    rfl
  | some x =>
    obtain ⟨new, temp⟩ := x
    simp only [xRenameDetach, call_bind, op_bind]
    simp only [Option.map_some, Option.toList_some] at hrefs hmore
    have hnew : new ∉ v.koas.free := by
      refine h.taken new ?_
      rw [hrefs]
      have : 0 < [old, new].count new := List.count_pos_iff.mpr (by simp)
      omega
    have hold' := hmore old (by simp)
    have hnew' := hmore new (by simp)
    refine guarded_still trivial rfl fun _ v₁ h₁ => ?_
    rw [← h₁] at h hold hnew hold' hnew' hf
    refine guarded_locks (Or.inl rfl) hold (guarded_locks (Or.inl rfl) hnew ?_)
    have hone : ∀ x, [old, new].count x = (if x = old then 1 else 0) + if x = new then 1 else 0 := by
      intro x
      rw [count_cons_if, count_cons_if, List.count_nil, Nat.add_zero]
    rw [hone, if_pos rfl] at hold'
    rw [hone, if_pos (rfl : new = new)] at hnew'
    have hrest : ∀ x, x ≠ old → (fun x => refs' x + if x = new then 1 else 0) x = refs x := by
      intro x hx
      rw [hrefs, hone, if_neg hx, Nat.zero_add]
    refine guarded_detach h ?_ hrest (by omega) fun v₂ h₂ hfree hmap hcnt => ?_
    · rw [hrefs, hone, if_pos rfl]
      omega
    · refine guarded_detach h₂ (by rw [if_pos rfl]) (fun x hx => by rw [if_neg hx]; rfl) ?_
        fun v₃ h₃ hfree' hmap' _ => hf v₃ h₃ (hfree'.trans hfree) (hmap'.trans hmap)
      rw [hcnt]
      split at hnew' <;> omega

/-- the end of the actions of `x_rename`: both KOAs are still out of the pool -/
theorem guarded_renameUnlock {args : RenameArgs N} {f : Unit → XProg n N α}
    (hold : args.oldpathKoa ∉ v.koas.free)
    (hnew : ∀ x ∈ (args.newpathKoa.map Prod.fst).toList, x ∉ v.koas.free)
    (hf : All (fun _ => Instr.Still) (f ())) (hQ : ∀ r v', v'.koas = v.koas → Q r v') :
    guarded (lifeStep T) liveGuard (xRenameUnlock args >>= f) Q v := by
  obtain ⟨old, newpathKoa, oldpath, newpath⟩ := args
  cases newpathKoa with
  | none =>
    simp only [xRenameUnlock, call_bind, op_bind]
    refine guarded_locks (Or.inr rfl) hold ?_
    exact guarded_rest (all_op trivial fun _ => hf) rfl hQ
  | some x =>
    simp only [xRenameUnlock, call_bind, op_bind]
    refine guarded_locks (Or.inr rfl) (hnew x.1 (by simp)) (guarded_locks (Or.inr rfl) hold ?_)
    exact guarded_rest (all_op trivial fun _ => hf) rfl hQ

theorem rename_live {args : RenameArgs N} (h : Held v.koas pend refs)
    (hrefs : ∀ x, refs x
      = refs' x + (args.oldpathKoa :: (args.newpathKoa.map Prod.fst).toList).count x)
    (hmore : ∀ x ∈ args.oldpathKoa :: (args.newpathKoa.map Prod.fst).toList,
      ((args.oldpathKoa :: (args.newpathKoa.map Prod.fst).toList).count x : Int)
        < (v.koas.koa x).refcnt) :
    guarded (lifeStep T) liveGuard (xRenameCommit args : XProg n N Int)
        (fun _ v' => Held v'.koas pend refs' ∧ v'.koas.map = v.koas.map) v ∧
      guarded (lifeStep T) liveGuard (xRenameUndo args : XProg n N Int)
        (fun _ v' => Held v'.koas pend refs' ∧ v'.koas.map = v.koas.map) v := by
  have hlive : ∀ x ∈ args.oldpathKoa :: (args.newpathKoa.map Prod.fst).toList, x ∉ v.koas.free := by
    intro x hx
    refine h.taken x ?_
    have := List.count_pos_iff.mpr hx
    rw [hrefs]
    omega
  have hend : ∀ v₁ v₂ : LifeView n N, Held v₁.koas pend refs' →
      v₁.koas.free = v.koas.free → v₁.koas.map = v.koas.map → v₂.koas = v₁.koas →
      ∀ e : Int, guarded (lifeStep T) liveGuard (xRenameUnlock args >>= fun _ => pure e)
        (fun _ v' => Held v'.koas pend refs' ∧ v'.koas.map = v.koas.map) v₂ := by
    intro v₁ v₂ h₁ hfree hmap h₂ e
    refine guarded_renameUnlock ?_ ?_ trivial fun r v₃ h₃ => ?_
    · rw [h₂, hfree]
      exact hlive _ List.mem_cons_self
    · intro x hx
      rw [h₂, hfree]
      exact hlive x (List.mem_cons_of_mem _ hx)
    · rw [h₃, h₂]
      exact ⟨h₁, hmap⟩
  constructor
  · unfold xRenameCommit
    refine guarded_renameDetach h hrefs hmore fun v₁ h₁ hfree hmap => ?_
    refine guarded_still trivial rfl fun b v₂ h₂ => ?_
    exact hend v₁ v₂ h₁ hfree hmap h₂ _
  · unfold xRenameUndo
    refine guarded_renameDetach h hrefs hmore fun v₁ h₁ hfree hmap => ?_
    refine guarded_still trivial rfl fun b v₂ h₂ => ?_
    cases hnew : args.newpathKoa with
    | none => exact hend v₁ v₂ h₁ hfree hmap h₂ _
    | some x =>
      refine guarded_still trivial h₂ fun b' v₃ h₃ => ?_
      cases b' with
      | error e => exact hend v₁ v₃ h₁ hfree hmap h₃ _
      | ok _ => exact hend v₁ v₃ h₁ hfree hmap h₃ _

theorem unlink_live {pathname : Path} (h : Held v.koas pend refs) (hk : refs k = refs' k + 1)
    (ho : ∀ x, x ≠ k → refs' x = refs x) (hmore : 1 < (v.koas.koa k).refcnt) :
    guarded (lifeStep T) liveGuard (xUnlinkCommit k pathname : XProg n N Int)
      (fun _ v' => Held v'.koas pend refs' ∧ v'.koas.map = v.koas.map) v := by
  have hlive : k ∉ v.koas.free := h.taken k (by omega)
  simp only [xUnlinkCommit, call_bind, pure_eq]
  refine guarded_still trivial rfl fun _ v₁ h₁ => ?_
  rw [← h₁] at h hlive hmore ⊢
  refine guarded_locks (Or.inl rfl) hlive ?_
  refine guarded_detach h hk ho hmore fun v₂ h₂ hfree hmap _ => ?_
  refine guarded_still trivial rfl fun _ v₃ h₃ => ?_
  refine guarded_locks (Or.inr rfl) (by rw [h₃, hfree]; exact hlive) ?_
  refine guarded_rest (all_op trivial fun _ => trivial) h₃ fun _ v₄ h₄ => ?_
  rw [h₄]
  exact ⟨h₂, hmap⟩

theorem pipe_live {fd0 fd1 : Nat} {koa0 koa1 : Fin N} (h : Held v.koas pend refs) (hne : fd0 ≠ fd1)
    (hmap0 : v.koas.map fd0 = some koa0) (hmap1 : v.koas.map fd1 = some koa1) :
    guarded (lifeStep T) liveGuard (xPipeUndo fd0 fd1 koa0 koa1 : XProg n N Int)
      (fun _ v' => Held v'.koas pend refs ∧
        ∀ x, x ≠ fd0 → x ≠ fd1 → v'.koas.map x = v.koas.map x) v := by
  by_cases hlt : fd0 < fd1
  all_goals
    simp only [xPipeUndo, lockBoth, hlt, if_true, if_false, call_bind, op_bind]
    refine guarded_still trivial rfl fun _ v₁ h₁ => guarded_still trivial h₁ fun _ v₂ h₂ => ?_
    rw [← h₂] at h hmap0 hmap1 ⊢
    refine guarded_detachFd h (h.attached fd0 koa0 (Or.inl hmap0)) (fun _ => Or.inl hmap0)
      fun _ v₃ h₃ hmap₃ => ?_
    refine detachFd_live (fun b => ?_) h₃ ((hmap₃ fd1 hne.symm).trans hmap1) fun r v₄ h₄ hmap₄ => ?_
    · repeat' first | exact trivial | refine all_op trivial fun _ => ?_ | split
    · exact ⟨h₄, fun x hx0 hx1 => (hmap₄ x hx1).trans (hmap₃ x hx0)⟩

def FindsFds (a : XAction N) (pend : List (Nat × Fin N)) (κ : Koas n N) : Prop :=
  (∃ fd k, a = .closeCommit fd k ∧ (fd, k) ∈ pend ∧ 0 < (κ.koa k).fdRefcnt) ∨
    (∀ x ∈ a.fds, κ.map x.1 = some x.2) ∧ (a.fds.map Prod.fst).Nodup

/-- **An action** that leaves its KOAs a reference touches no KOA of the pool, and all else is held
afterwards. -/
theorem action_live (a : XAction N) (h : Held v.koas pend refs)
    (hrefs : ∀ x, refs x = refs' x + a.koas.count x)
    (hmore : ∀ x ∈ a.koas, (a.koas.count x : Int) < (v.koas.koa x).refcnt)
    (hfds : FindsFds a pend v.koas) :
    guarded (lifeStep T) liveGuard (a.prog : XProg n N Int) (fun _ v' => Held v'.koas pend refs' ∧
      ∀ x, x ∉ a.fds.map Prod.fst → v'.koas.map x = v.koas.map x) v := by
  have hsame : a.koas = [] → refs = refs' := by
    intro ha
    funext x
    rw [hrefs, ha]
    rfl
  cases a with
  | renameCommit args =>
    refine guarded_mono (fun _ _ hv => ?_) (rename_live h hrefs hmore).1
    exact ⟨hv.1, fun x _ => by rw [hv.2]⟩
  | renameUndo args =>
    refine guarded_mono (fun _ _ hv => ?_) (rename_live h hrefs hmore).2
    exact ⟨hv.1, fun x _ => by rw [hv.2]⟩
  | unlinkCommit koa pathname =>
    have hmore := hmore koa List.mem_cons_self
    refine guarded_mono (fun _ _ hv => ⟨hv.1, fun x _ => by rw [hv.2]⟩)
      (unlink_live h ?_ (fun x hx => ?_) ?_)
    · rw [hrefs]
      simp [XAction.koas]
    · rw [hrefs]
      simp [XAction.koas, List.count_cons_of_ne (Ne.symm hx)]
    · simpa [XAction.koas] using hmore
  | closeCommit fd koa =>
    obtain rfl := hsame rfl
    have hclose : koa ∉ v.koas.free ∧ (v.koas.map fd ≠ none → Attached v.koas pend fd koa) := by
      rcases hfds with ⟨_, _, ha, hin, hlist⟩ | ⟨hmap, -⟩
      · cases ha
        refine ⟨fun hc => ?_, fun hne => Or.inr ⟨hne, hin⟩⟩
        have := h.unlisted koa hc
        omega
      · have hmap := hmap (fd, koa) List.mem_cons_self
        exact ⟨h.attached fd koa (Or.inl hmap), fun _ => Or.inl hmap⟩
    refine guarded_mono (fun _ _ hv => ⟨hv.1, fun x hx => hv.2 x ?_⟩) (close_live h hclose.1 hclose.2)
    simpa [XAction.fds] using hx
  | openUndo fd koa | createCase1Undo fd koa pathname =>
    obtain rfl := hsame rfl
    have hmap : v.koas.map fd = some koa := by
      rcases hfds with ⟨_, _, ha, -⟩ | ⟨hmap, -⟩
      · cases ha
      · exact hmap (fd, koa) List.mem_cons_self
    refine guarded_still trivial rfl fun _ v₁ h₁ => guarded_still trivial h₁ fun _ v₂ h₂ => ?_
    rw [← h₂] at h hmap ⊢
    refine detachFd_live (fun b => ?_) h hmap fun r v₃ h₃ hmap₃ => ⟨h₃, fun x hx => hmap₃ x ?_⟩
    · repeat' first | exact trivial | refine all_op trivial fun _ => ?_ | split
    · simpa [XAction.fds] using hx
  | dupUndo fd koa | socketUndo fd koa =>
    obtain rfl := hsame rfl
    have hmap : v.koas.map fd = some koa := by
      rcases hfds with ⟨_, _, ha, -⟩ | ⟨hmap, -⟩
      · cases ha
      · exact hmap (fd, koa) List.mem_cons_self
    refine guarded_still trivial rfl fun _ v₁ h₁ => ?_
    rw [← h₁] at h hmap ⊢
    refine detachFd_live (fun b => ?_) h hmap fun r v₃ h₃ hmap₃ => ⟨h₃, fun x hx => hmap₃ x ?_⟩
    · repeat' first | exact trivial | refine all_op trivial fun _ => ?_
    · simpa [XAction.fds] using hx
  | createCase2Undo args =>
    obtain rfl := hsame rfl
    have hmap : v.koas.map args.fd = some args.koa := by
      rcases hfds with ⟨_, _, ha, -⟩ | ⟨hmap, -⟩
      · cases ha
      · exact hmap (args.fd, args.koa) List.mem_cons_self
    refine guarded_still trivial rfl fun _ v₁ h₁ => guarded_still trivial h₁ fun _ v₂ h₂ =>
      guarded_still trivial h₂ fun _ v₃ h₃ => ?_
    rw [← h₃] at h hmap ⊢
    refine detachFd_live (fun b => ?_) h hmap fun r v₄ h₄ hmap₄ => ⟨h₄, fun x hx => hmap₄ x ?_⟩
    · repeat' first | exact trivial | refine all_op trivial fun _ => ?_ | split
    · simpa [XAction.fds] using hx
  | pipeUndo fd0 fd1 koa0 koa1 =>
    obtain rfl := hsame rfl
    rcases hfds with ⟨_, _, ha, -⟩ | ⟨hmap, hnd⟩
    · cases ha
    · have hne : fd0 ≠ fd1 := by simpa [XAction.fds] using hnd
      refine guarded_mono (fun _ _ hv => ⟨hv.1, fun x hx => ?_⟩)
        (pipe_live h hne (hmap (fd0, koa0) (by simp [XAction.fds]))
          (hmap (fd1, koa1) (by simp [XAction.fds])))
      simp only [XAction.fds, List.map_cons, List.map_nil, List.mem_cons, List.not_mem_nil, or_false,
        not_or] at hx
      exact hv.2 x hx.1 hx.2
  | _ =>
    obtain rfl := hsame rfl
    refine guarded_rest ?_ rfl fun _ v' hv => by rw [hv]; exact ⟨h, fun _ _ => rfl⟩
    simp only [XAction.prog, xReadUndo, xLseekUndo, xWriteSeqUndo, xWriteOvrUndo, xCreateCase2Commit,
      xFsyncCommit, xFdatasyncCommit, xWritePipeCommit, xSendmsgCommit, xReadPipeCommit,
      xReadPipeUndo, xRecvmsgCommit, xRecvmsgUndo, call_bind, pure_eq]
    repeat' first | exact trivial | refine all_op trivial fun _ => ?_ | split

end

/-! ## what is registered -/

/-- the orders are 0 and 1, those of undo actions 0, and of the commit actions only `x_close_commit`
detaches descriptors -/
def Instr.Orderly : ∀ {β : Type}, Instr n N β → Prop
  | _, .registerCommitAction a _ order =>
    (order = 0 ∨ order = 1) ∧ (a.fds = [] ∨ ∃ fd k, a = .closeCommit fd k)
  | _, .registerUndoAction _ _ order => order = 0
  | _, _ => True

theorem orderly_prog (c : FdCall) (result : Option Nat) :
    All (fun _ => Instr.Orderly) (c.prog result : XProg n N Unit) := by
  cases c with
  | file c =>
    cases c
    all_goals
      simp only [FdCall.prog, XCall.prog, xRead, xLseek, xWrite, xWriteOvr, xOpen, xOpenRegister,
        koaOfInode, xCreate, xCreateCase1, xCreateCase2, xCreateIsolate, xCreateCase2a, xClose, xDup,
        xRename, xRenameAside, attachPath, xUnlink, acquireFd, acquireNew, allocArgs, finish,
        call_bind, op_bind, ret_bind, pure_eq]
      repeat' first
        | exact trivial
        | refine all_op trivial fun _ => ?_
        | refine all_op rfl fun _ => ?_
        | refine all_op ⟨Or.inl rfl, Or.inl rfl⟩ fun _ => ?_
        | refine all_op ⟨Or.inr rfl, Or.inl rfl⟩ fun _ => ?_
        | refine all_op ⟨Or.inr rfl, Or.inr ⟨_, _, rfl⟩⟩ fun _ => ?_
        | refine all_bind ?_ fun _ => ?_
        | split
  | _ =>
    simp only [FdCall.prog, xFsync, xFdatasync, xSync, xReadPipe, readPipeRetryable, readPipeOutside,
      xWritePipe, xSendmsg, xRecvmsg, recvmsgRetryable, recvmsgOutside, beginSpeculative, xPipe,
      pipeKoas, lockBoth, xSocket, acquireFd, acquireNew, allocArgs, finish, call_bind, op_bind,
      ret_bind, pure_eq]
    repeat' first
      | exact trivial
      | refine all_op trivial fun _ => ?_
      | refine all_op rfl fun _ => ?_
      | refine all_op ⟨Or.inl rfl, Or.inl rfl⟩ fun _ => ?_
      | refine all_bind ?_ fun _ => ?_
      | split

/-- the lists that the calls have registered -/
def Registers (v : LifeView n N) : Prop :=
  (∀ x ∈ v.commits, (x.2 = 0 ∨ x.2 = 1) ∧ (x.1.fds = [] ∨ ∃ fd k, x.1 = .closeCommit fd k)) ∧
    ∀ x ∈ v.undos, x.2 = 0

theorem lifeStep_registers {β : Type} {i : Instr n N β} {b : β} {v v' : LifeView n N}
    (hi : i.Orderly) (h : lifeStep T i b v v') (hv : Registers v) : Registers v' := by
  have hkeep : v'.commits = v.commits → v'.undos = v.undos → Registers v' := by
    intro hc hu
    unfold Registers
    rw [hc, hu]
    exact hv
  cases i with
  | registerCommitAction a result order =>
    cases h
    refine ⟨fun x hx => ?_, hv.2⟩
    rcases List.mem_append.mp hx with hx | hx
    · exact hv.1 x hx
    · rw [List.mem_singleton.mp hx]
      exact hi
  | registerUndoAction a result order =>
    cases h
    refine ⟨hv.1, fun x hx => ?_⟩
    rcases List.mem_append.mp hx with hx | hx
    · exact hv.2 x hx
    · rw [List.mem_singleton.mp hx]
      exact hi
  | getXactstate | lookupInode | lookupFd2koa =>
    rw [h.2]
    exact hv
  | createKoa | createKoaOf | attachKoa | detachKoa | attachFd | detachFd =>
    obtain ⟨_, _, _, _, rfl⟩ := h
    exact hkeep rfl rfl
  | libcOpen | libcDup | libcSocket =>
    cases b with
    | error e =>
      rw [show v' = v from h]
      exact hv
    | ok fd =>
      obtain ⟨-, _, rfl⟩ := h
      exact hkeep rfl rfl
  | libcPipe =>
    cases b with
    | error e =>
      rw [show v' = v from h]
      exact hv
    | ok fds =>
      obtain ⟨-, -, _, _, rfl⟩ := h
      exact hkeep rfl rfl
  | libcClose =>
    obtain ⟨_, -, rfl⟩ := h
    exact hkeep rfl rfl
  | _ =>
    rw [show v' = v from h]
    exact hv

theorem fdRun_registers {cs : List FdRequest} : ∀ {m m' : XMach T n N} {out : Option AbortReason},
    fdRun cs m = some (out, m') → ListsOk m.txd ∧ Registers (lifeView m) →
    ListsOk m'.txd ∧ Registers (lifeView m') := by
  induction cs with
  | nil =>
    intro m m' out hrun hm
    cases hrun
    exact hm
  | cons c cs ih =>
    intro m m' out hrun hm
    have hcall : ∀ {r : Except Stop Unit} {m₁ : XMach T n N},
        run handle (c.call.prog c.result) (withAnswers m c.answers) = some (r, m₁) →
        ListsOk m₁.txd ∧ Registers (lifeView m₁) := by
      intro r m₁ h₁
      refine ⟨run_inv (J := fun s : XMach T n N => ListsOk s.txd)
        (fun i b s s' hs => handle_listsOk i b s s' hs) h₁ hm.1, ?_⟩
      refine run_life (Q := fun _ v => Registers v) ?_ h₁
      exact wp_all (J := Registers) (fun i b v v' hi h hv => lifeStep_registers hi h hv)
        (orderly_prog c.call c.result) hm.2
    unfold fdRun at hrun
    split at hrun
    · cases hrun
    · exact ih hrun (hcall ‹_›)
    · cases hrun
      exact hcall ‹_›
    · cases hrun

/-! ## the generic actions -/

theorem exec_sentinelmgr_koas (a : ActOf (XAction N)) (ha : ∀ x, a ≠ .other x) (m : XMach T n N) :
    (exec a m).1.world.koamgr.koas = m.world.koamgr.koas := by
  cases a with
  | sentinelmgrCommit => rfl
  | sentinelmgrUndo =>
    simp only [exec]
    split
    · rfl
    · unfold reacquireSentinels
      split <;> rfl
  | other a => exact absurd rfl (ha a)

theorem guarded_handle {α : Type} {p : XProg n N α} {Q : Except Stop α → LifeView n N → Prop}
    {m : XMach T n N} (h : guarded (lifeStep T) liveGuard p Q (lifeView m)) :
    guarded (stepsOf handle) (fun i m => i.OnLive m.world.koamgr.koas) p
      (fun r m => Q r (lifeView m)) m := by
  have hR : ∀ {β : Type} (i : Instr n N β) (b : β) (s s' : XMach T n N),
      handle i s = some (b, s') → lifeStep T i b (lifeView s) (lifeView s') :=
    fun i b s s' hs => handle_lifeStep hs
  have hG : ∀ {β : Type} (i : Instr n N β) (s : XMach T n N), liveGuard i (lifeView s) →
      i.OnLive s.world.koamgr.koas := fun i s hs => hs
  exact guarded_view hR hG h

/-- from what one action needs and leaves to the actions of a list -/
theorem along_live {Ready : List (XAction N × Int32) → Koas n N → Prop}
    (hstep : ∀ (a : XAction N) (order : Int32) (l : List (XAction N × Int32)) (m : XMach T n N),
      Ready ((a, order) :: l) m.world.koamgr.koas → a.Referenced m →
      guarded (lifeStep T) liveGuard (a.prog : XProg n N Int) (fun _ v => Ready l v.koas) (lifeView m))
    (es : List (XEntry N)) : ∀ m : XMach T n N, Ready (others es) m.world.koamgr.koas →
      Along XAction.Referenced es m → Along XAction.TouchesLive es m := by
  induction es with
  | nil => exact fun m _ _ => trivial
  | cons e es ih =>
    intro m hm href
    obtain ⟨href, hrest⟩ := href
    have hw : (callEntry exec e m).1.world = (exec e.function m).1.world := Mach.store_world _ _ _
    cases ha : e.function with
    | other a =>
      have hcons : others (e :: es) = (a, e.order) :: others es := by simp [others, ha]
      rw [hcons] at hm
      rw [ha] at href
      have hlive := guarded_handle (hstep a e.order _ m hm href)
      refine ⟨?_, ih _ ?_ hrest⟩
      · rw [ha]
        exact guarded_mono (fun _ _ _ => trivial) hlive
      · rw [hw, ha]
        exact wp_stepsOf (wp_of_guarded hlive) (exec_other a m)
    | sentinelmgrCommit | sentinelmgrUndo =>
      have hcons : others (e :: es) = others es := by simp [others, ha]
      rw [hcons] at hm
      refine ⟨?_, ih _ ?_ hrest⟩
      · rw [ha]
        trivial
      · rw [hw, exec_sentinelmgr_koas _ (by simp [ha])]
        exact hm

def ReadyCommits (l : List (XAction N × Int32)) (κ : Koas n N) : Prop :=
  (Held κ (fdsOf l) fun k => (koasOf l).count k) ∧
    ∀ x ∈ l, x.1.fds = [] ∨ ∃ fd k, x.1 = .closeCommit fd k

def ReadyUndos (l : List (XAction N × Int32)) (κ : Koas n N) : Prop :=
  (Held κ [] fun k => (koasOf l).count k) ∧ (∀ x ∈ fdsOf l, κ.map x.1 = some x.2) ∧
    ((fdsOf l).map Prod.fst).Nodup

theorem count_koasOf (a : XAction N) (order : Int32) (l : List (XAction N × Int32)) (x : Fin N) :
    (koasOf ((a, order) :: l)).count x = (koasOf l).count x + a.koas.count x := by
  show (a.koas ++ koasOf l).count x = _
  rw [List.count_append, Nat.add_comm]

theorem commits_step (a : XAction N) (order : Int32) (l : List (XAction N × Int32))
    (m : XMach T n N) (h : ReadyCommits ((a, order) :: l) m.world.koamgr.koas)
    (href : a.Referenced m) :
    guarded (lifeStep T) liveGuard (a.prog : XProg n N Int) (fun _ v => ReadyCommits l v.koas)
      (lifeView m) := by
  obtain ⟨hheld, hkind⟩ := h
  refine guarded_mono (fun _ v hv => ?_)
    (action_live (v := lifeView m) a hheld (count_koasOf a order l) href.1 ?_)
  · refine ⟨hv.1.mono (fun x hx => ?_) fun _ => le_rfl, fun x hx => hkind x (List.mem_cons_of_mem _ hx)⟩
    exact List.mem_append_right a.fds hx
  · rcases hkind (a, order) List.mem_cons_self with ha | ⟨fd, k, ha⟩
    · refine Or.inr ⟨fun x hx => ?_, ?_⟩
      · rw [show a.fds = [] from ha] at hx
        cases hx
      · rw [show a.fds = [] from ha]
        exact List.nodup_nil
    · obtain rfl : a = .closeCommit fd k := ha
      exact Or.inl ⟨fd, k, rfl, List.mem_cons_self, href.2 k List.mem_cons_self⟩

theorem undos_step (a : XAction N) (order : Int32) (l : List (XAction N × Int32))
    (m : XMach T n N) (h : ReadyUndos ((a, order) :: l) m.world.koamgr.koas)
    (href : a.Referenced m) :
    guarded (lifeStep T) liveGuard (a.prog : XProg n N Int) (fun _ v => ReadyUndos l v.koas)
      (lifeView m) := by
  obtain ⟨hheld, hmap, hnd⟩ := h
  have happ : fdsOf ((a, order) :: l) = a.fds ++ fdsOf l := rfl
  rw [happ] at hmap hnd
  rw [List.map_append, List.nodup_append] at hnd
  refine guarded_mono (fun _ v hv => ⟨hv.1, fun x hx => ?_, hnd.2.1⟩)
    (action_live (v := lifeView m) a hheld (count_koasOf a order l) href.1 (Or.inr ⟨?_, hnd.1⟩))
  · exact fun x hx => hmap x (List.mem_append_left _ hx)
  · rw [hv.2 x.1 fun hin => hnd.2.2 x.1 hin x.1 (List.mem_map_of_mem hx) rfl]
    exact hmap x (List.mem_append_right _ hx)

theorem ReadyCommits.perm {l l' : List (XAction N × Int32)} {κ : Koas n N} (hp : l'.Perm l)
    (h : ReadyCommits l κ) : ReadyCommits l' κ := by
  refine ⟨h.1.mono (fun x hx => (hp.flatMap_right _).mem_iff.mp hx) fun k => ?_,
    fun x hx => h.2 x (hp.mem_iff.mp hx)⟩
  exact ((hp.flatMap_right _).count_eq k).le

theorem ReadyUndos.perm {l l' : List (XAction N × Int32)} {κ : Koas n N} (hp : l'.Perm l)
    (h : ReadyUndos l κ) : ReadyUndos l' κ := by
  refine ⟨h.1.mono (fun x hx => hx) fun k => ?_, fun x hx => ?_, ?_⟩
  · exact ((hp.flatMap_right _).count_eq k).le
  · exact h.2.1 x ((hp.flatMap_right _).mem_iff.mp hx)
  · exact (((hp.flatMap_right _).map Prod.fst).nodup_iff).mpr h.2.2

/-! ## the claim -/

/-- the references of the descriptors are counted, and nothing refers to a KOA of the pool -/
def KoasOk (m : KoaMgr T n N) : Prop := Held m.koas [] fun _ => 0

theorem koasOk_empty : KoasOk (koamgrEmpty T n N) where
  nodup := (rep_empty (T := T) (n := n) (N := N)).nodup
  counted k s hs := by
    have hs : s = ∅ := Finset.eq_empty_of_forall_notMem fun fd hfd => (hs fd hfd).ne_none rfl
    rw [hs]
    exact le_rfl
  covered k _ := le_rfl
  attached fd k hk := absurd rfl hk.ne_none
  taken k hk := absurd hk (Nat.lt_irrefl 0)
  unlisted k _ := rfl
  cached ino k hk := nomatch hk

theorem koasOk_precreate {m m' : KoaMgr T n N} {type : KoaType} {fd : Nat} (h : KoasOk m)
    (hc : precreate m type fd = some m') : KoasOk m' := by
  obtain ⟨⟨k, m₁⟩, h₁, h₂⟩ := Option.bind_eq_some_iff.mp hc
  obtain ⟨hm₁, hk, -⟩ := Held.create h h₁
  exact hm₁.attachFd hk (fun x hx => nomatch hx) h₂

theorem koasOk_koamgrCreate {m : KoaMgr T n N} (h : koamgrCreate T n N = some m) : KoasOk m := by
  obtain ⟨m₁, h₁, h⟩ := Option.bind_eq_some_iff.mp h
  obtain ⟨m₂, h₂, h₃⟩ := Option.bind_eq_some_iff.mp h
  exact koasOk_precreate (koasOk_precreate (koasOk_precreate koasOk_empty h₁) h₂) h₃

theorem lifeInv_xBegin {m : XMach T n N} (hm : KoasOk m.world.koamgr) :
    LifeInv (lifeView (xBegin m)) [] := by
  obtain ⟨hc, hu⟩ := Prod.mk.inj (xBegin_lists m).2
  have hcommits : (lifeView (xBegin m)).commits = [] := hc
  have hundos : (lifeView (xBegin m)).undos = [] := hu
  constructor
  · rw [hcommits]
    exact hm
  · rw [hcommits]
    exact fun fd k hk => nomatch hk
  · rw [hundos]
    exact fun fd k hk => nomatch hk
  · rw [hundos]
    exact List.nodup_nil
  · rw [hundos]
    exact fun k => Nat.zero_le _

/-- **Actions and KOAs of the pool.**  Whatever calls an attempt makes: the actions of its commit,
and those of its abort, touch only KOAs that are out of the pool, as long as each finds what
`XAction.Referenced` says in the state in which it is called. -/
theorem actions_touch_live (m : XMach T n N) (hm : KoasOk m.world.koamgr) (cs : List FdRequest)
    (hadm : FdsAdmissible cs (xBegin m)) (out : Option AbortReason) (m' : XMach T n N)
    (hrun : fdRun cs (xBegin m) = some (out, m')) (answers : Answers) :
    (out = none → ∃ fuel₀ o,
      (∀ fuel ≥ fuel₀, txGenericCommitAction exec fuel (withAnswers m' answers) = some o) ∧
      (Along XAction.Referenced o.executed (withAnswers m' answers) →
        Along XAction.TouchesLive o.executed (withAnswers m' answers))) ∧
    ∀ reason, ∃ fuel₀ o,
      (∀ fuel ≥ fuel₀,
        txGenericUndoAction exec fuel (withAnswers (xAbort m' reason) answers) = some o) ∧
      (Along XAction.Referenced o.executed (withAnswers (xAbort m' reason) answers) →
        Along XAction.TouchesLive o.executed (withAnswers (xAbort m' reason) answers)) := by
  obtain ⟨hundo, hlife⟩ := fdRun_life (lifeInv_xBegin hm) rfl hadm hrun
  obtain ⟨hok0, hact⟩ := xBegin_lists m
  have hreg0 : Registers (lifeView (xBegin m)) := by
    obtain ⟨hc, hu⟩ := Prod.mk.inj hact
    refine ⟨fun x hx => ?_, fun x hx => ?_⟩
    · rw [show (lifeView (xBegin m)).commits = [] from hc] at hx
      cases hx
    · rw [show (lifeView (xBegin m)).undos = [] from hu] at hx
      cases hx
  obtain ⟨hok, hreg⟩ := fdRun_registers hrun ⟨hok0, hreg0⟩
  constructor
  · intro hout
    obtain ⟨fuel₀, o, hfuel, hord, -⟩ := txGenericCommitAction_spec exec_registersNothing
      (withAnswers m' answers) (hok.1.nonneg fun x hx => (hreg.1 x hx).1)
    refine ⟨fuel₀, o, hfuel, along_live commits_step o.executed _ ?_⟩
    have hready : ReadyCommits (others m'.txd.commitActionList.entries) m'.world.koamgr.koas :=
      ⟨(hlife hout).held, fun x hx => (hreg.1 x hx).2⟩
    exact hready.perm (hord.once.filterMap _)
  · intro reason
    have hlist := (xAbort_lists m' reason).2
    have hscan : ∀ e ∈ undoScan (withAnswers (xAbort m' reason) answers).txd, 0 ≤ e.order := by
      intro e he
      have he : e ∈ (xAbort m' reason).txd.undoActionList.entries := List.mem_reverse.mp he
      rw [hlist] at he
      exact hok.2.nonneg (fun x hx => Or.inl (hreg.2 x hx)) e he
    obtain ⟨fuel₀, o, hfuel, hord, -⟩ := txGenericUndoAction_spec exec_registersNothing
      (withAnswers (xAbort m' reason) answers) hscan
    refine ⟨fuel₀, o, hfuel, along_live undos_step o.executed _ ?_⟩
    have hready : ReadyUndos (others m'.txd.undoActionList.entries) m'.world.koamgr.koas :=
      ⟨hundo.held, fun x hx => hundo.opened x.1 x.2 hx, hundo.distinct⟩
    refine hready.perm ((hord.once.filterMap _).trans ?_)
    show (others (xAbort m' reason).txd.undoActionList.entries.reverse).Perm _
    rw [hlist]
    exact (List.reverse_perm _).filterMap _

/-! ## a run, and one on which a KOA of the pool is touched -/

theorem koasOk_smallMach (k : Kernel) : KoasOk (smallMach k).world.koamgr := by
  have hsome : (koamgrCreate Unit 8 8).isSome = true := by decide +kernel
  obtain ⟨m, hm⟩ := Option.isSome_iff_exists.mp hsome
  show KoasOk ((koamgrCreate Unit 8 8).getD (koamgrEmpty Unit 8 8))
  rw [hm]
  exact koasOk_koamgrCreate hm

/-- a file is opened, its name is removed, and it is closed -/
def openUnlinkClose : List FdRequest :=
  [⟨.file (.open "a" ⟨false, false, false⟩), none, smallAnswers⟩,
    ⟨.file (.unlink "a"), none, { smallAnswers with fd := 5, fd1 := 6 }⟩,
    ⟨.file (.close 3), none, { smallAnswers with fd := 5, fd1 := 6 }⟩]

theorem actions_touch_live_openUnlinkClose :
    ∃ m' fuel₀ o, fdRun openUnlinkClose (xBegin (smallMach smallKernel)) = some (none, m') ∧
      (∀ fuel ≥ fuel₀, txGenericCommitAction exec fuel m' = some o) ∧
      o.executed.length = 3 ∧ Along XAction.TouchesLive o.executed m' := by
  have hadm : FdsAdmissible openUnlinkClose (xBegin (smallMach smallKernel)) := by decide +kernel
  have hall : ((fdRun openUnlinkClose (xBegin (smallMach smallKernel))).bind fun r =>
      (txGenericCommitAction exec 20 r.2).map fun o =>
        decide (r.1 = none ∧ o.executed.length = 3 ∧ Along XAction.Referenced o.executed r.2))
      = some true := by decide +kernel
  obtain ⟨⟨out, m'⟩, hrun, hall⟩ := Option.bind_eq_some_iff.mp hall
  obtain ⟨o', ho', hdec⟩ := Option.map_eq_some_iff.mp hall
  obtain ⟨rfl, hlen, href⟩ := of_decide_eq_true hdec
  obtain ⟨fuel₀, o, hfuel, hlive⟩ := (actions_touch_live (smallMach smallKernel)
    (koasOk_smallMach smallKernel) openUnlinkClose hadm none m' hrun m'.world.answers).1 rfl
  have hmax := hfuel (max 20 fuel₀) (Nat.le_max_right _ _)
  obtain rfl : o' = o := Option.some.inj
    ((txGenericCommitAction_mono ho' (Nat.le_max_left 20 fuel₀)).symm.trans hmax)
  exact ⟨m', fuel₀, o', hrun, hfuel, hlen, hlive href⟩

/-- with the last reference to a KOA the KOA goes back to the pool, and is unlocked afterwards -/
theorem unlink_not_live (m : XMach T n N) (k : Fin N) (pathname : Path)
    (h : (m.world.koamgr.koa k).refcnt = 1) : ¬ (XAction.unlinkCommit k pathname).TouchesLive m := by
  intro hg
  -- the alias cache and the descriptors are locked, the KOA is detached, the name is removed
  have h₁ := (hg.2 () m rfl).2 () m rfl
  obtain ⟨m₁, hm₁, hmgr⟩ : ∃ m₁ : XMach T n N, handle (.detachKoa k : Instr n N Unit) m
      = some ((), m₁) ∧ m₁.world.koamgr = koaDetach m.world.koamgr k := ⟨_, rfl, rfl⟩
  have h₂ := h₁.2 () m₁ hm₁
  have h₃ := h₂.2 (syscall m₁ fun κ => sysUnlink κ pathname).1
    (syscall m₁ fun κ => sysUnlink κ pathname).2 rfl
  refine h₃.1 k rfl ?_
  rw [syscall_koamgr, hmgr]
  show k ∈ (countDetach m.world.koamgr k).free
  rw [countDetach_free, if_pos (by rw [h]; rfl)]
  exact List.mem_cons_self

def unlinkOnly : List FdRequest := [⟨.file (.unlink "a"), none, smallAnswers⟩]

/-- the name of a file that is not open is removed: `x_unlink_commit` unlocks a KOA that it has
returned to the pool -/
theorem unlink_unlocks_freed :
    KoasOk (smallMach smallKernel).world.koamgr ∧
      FdsAdmissible unlinkOnly (xBegin (smallMach smallKernel)) ∧
      ∃ m' o, fdRun unlinkOnly (xBegin (smallMach smallKernel)) = some (none, m') ∧
        txGenericCommitAction exec 20 m' = some o ∧ ¬ Along XAction.TouchesLive o.executed m' := by
  refine ⟨koasOk_smallMach smallKernel, by decide +kernel, ?_⟩
  have hall : ((fdRun unlinkOnly (xBegin (smallMach smallKernel))).bind fun r =>
      (txGenericCommitAction exec 20 r.2).map fun o =>
        decide (r.1 = none ∧ (r.2.world.koamgr.koa 3).refcnt = 1 ∧
          (o.executed.map ActionEntry.function).head? = some (.other (.unlinkCommit 3 "a"))))
      = some true := by decide +kernel
  obtain ⟨⟨out, m'⟩, hrun, hall⟩ := Option.bind_eq_some_iff.mp hall
  obtain ⟨o, ho, hdec⟩ := Option.map_eq_some_iff.mp hall
  obtain ⟨rfl, hcnt, hhead⟩ := of_decide_eq_true hdec
  refine ⟨m', o, hrun, ho, fun hlive => ?_⟩
  cases hex : o.executed with
  | nil =>
    rw [hex] at hhead
    cases hhead
  | cons e es =>
    rw [hex] at hhead hlive
    have he : e.function = .other (.unlinkCommit 3 "a") := Option.some.inj hhead
    have h1 := hlive.1
    rw [he] at h1
    exact unlink_not_live m' 3 "a" hcnt h1

end XCalls
