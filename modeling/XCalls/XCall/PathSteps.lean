import XCalls.XCall.Actions

/-!
# What a call on names does in a retryable transaction

* `PathStep`     all that `x_create`, `x_rename` and `x_unlink` can do to the kernel and to the lists
                 of actions, when every system call succeeds;
* `path_view`    they do nothing else.
-/

set_option linter.unusedSectionVars false

namespace XCalls
open Prog
variable {n N : Nat}

theorem wp_same {α β : Type} {p : XProg n N α} {f : α → XProg n N β} {v : View N}
    {Q : Except Stop β → View N → Prop} (h : wp okStep p (fun _ v' => v' = v) v)
    (he : ∀ e, Q (.error e) v) (hf : ∀ a, wp okStep (f a) Q v) : wp okStep (p >>= f) Q v := by
  refine wp_bind (wp_mono ?_ h)
  rintro (e | a) v' rfl
  · exact he e
  · exact hf a

def Same (v : View N) {α : Type} (r : Except Stop α) (v' : View N) : Prop :=
  v' = v ∧ ∀ reason, r ≠ .error (.abort reason)

theorem wp_of_same {α β : Type} {p : XProg n N α} {f : α → XProg n N β} {v : View N}
    {Q : Except Stop β → View N → Prop} (h : wp okStep p (Same v) v)
    (he : Q (.error .internalError) v) (hf : ∀ a, wp okStep (f a) Q v) :
    wp okStep (p >>= f) Q v := by
  refine wp_bind (wp_mono ?_ h)
  rintro (e | a) v' ⟨rfl, hr⟩
  · cases e with
    | abort reason => exact absurd rfl (hr reason)
    | internalError => exact he
  · exact hf a

@[simp] theorem wp_finish (result : Option Nat) (ret : Int) (e : Errno) (Q : Except Stop Int → View N → Prop) (v : View N) :
    wp okStep (finish result ret e : XProg n N Int) Q v ↔ Q (.ok ret) v := by
  simp [finish, wp_op, okStep, natStep, succeeds]

theorem acquireNew_view (koa : Fin N) (v : View N) :
    wp okStep (acquireNew koa : XProg n N Unit) (Same v) v := by
  simp only [acquireNew, call_bind, wp_op, okStep, natStep, succeeds]
  rintro s _ ⟨rfl, -⟩ r _ ⟨rfl, -⟩
  split
  · exact ⟨rfl, fun _ h => by cases h⟩
  · exact ⟨rfl, fun _ h => by cases h⟩

theorem allocArgs_view (size : UInt32) (v : View N) :
    wp okStep (allocArgs size : XProg n N Unit) (Same v) v := by
  simp only [allocArgs, call_bind, wp_op, okStep, natStep, succeeds]
  rintro b _ ⟨rfl, -⟩
  split
  · exact ⟨rfl, fun _ h => by cases h⟩
  · exact ⟨rfl, fun _ h => by cases h⟩

theorem xCreateCase2a_view (koa : Fin N) (v : View N) :
    wp okStep (xCreateCase2a koa : XProg n N Unit) (fun _ v' => v' = v) v := by
  simp only [xCreateCase2a, call_bind, wp_op, okStep, natStep, succeeds]
  rintro _ _ ⟨rfl, -⟩ s _ ⟨rfl, -⟩ r _ ⟨rfl, -⟩
  split
  · rintro _ _ ⟨rfl, -⟩ _ _ ⟨rfl, -⟩
    rfl
  · rintro _ _ ⟨rfl, -⟩
    rfl

theorem attachPath_view (inode : Inode) (flags : UInt32) (v : View N) :
    wp okStep (attachPath inode flags : XProg n N (Fin N)) (fun _ v' => v' = v) v := by
  simp only [attachPath, call_bind, wp_op, okStep, natStep, succeeds]
  rintro (_ | koa) _ ⟨rfl, -⟩
  · simp only [wp_op]
    rintro koa _ ⟨rfl, -⟩ _ _ ⟨rfl, -⟩
    exact wp_of_same (acquireNew_view koa _) rfl fun _ => rfl
  · simp only [wp_op]
    rintro _ _ ⟨rfl, -⟩ _ _ ⟨rfl, -⟩ s _ ⟨rfl, -⟩ r _ ⟨rfl, -⟩
    split
    · rintro _ _ ⟨rfl, -⟩ _ _ ⟨rfl, -⟩ _ _ ⟨rfl, -⟩
      rfl
    · rintro _ _ ⟨rfl, -⟩
      rfl


inductive PathStep (v : View N) : XCall → View N → Prop
  | createNew {p : Path} {koa : Fin N} {fd : Nat} {k' : Kernel} (hp : v.kernel.names p = none)
      (ho : sysOpen v.kernel p creationFlags v.file v.fd = (.ok fd, k')) :
      PathStep v (.create p) { v with
        kernel := k'
        undos := v.undos ++ [(.createCase1Undo fd koa p, regularActionOrder)] }
  | createOver {p : Path} {koa : Fin N} {fd : Nat} {k₁ k' : Kernel} (hp : v.kernel.names p ≠ none)
      (hr : sysRename v.kernel p v.temp = (.ok (), k₁))
      (ho : sysOpen k₁ p creationFlags v.file v.fd = (.ok fd, k')) :
      PathStep v (.create p) { v with
        kernel := k'
        commits := v.commits ++ [(.createCase2Commit ⟨fd, koa, v.temp, p⟩, regularActionOrder)]
        undos := v.undos ++ [(.createCase2Undo ⟨fd, koa, v.temp, p⟩, regularActionOrder)] }
  | renameMissing {old new : Path} (ho : v.kernel.names old = none) :
      PathStep v (.rename old new) v
  | renameNew {old new : Path} {koa : Fin N} {k' : Kernel} (ho : v.kernel.names old ≠ none)
      (hn : v.kernel.names new = none) (hl : sysLink v.kernel old new = (.ok (), k')) :
      PathStep v (.rename old new) { v with
        kernel := k'
        commits := v.commits ++ [(.renameCommit ⟨koa, none, old, new⟩, regularActionOrder)]
        undos := v.undos ++ [(.renameUndo ⟨koa, none, old, new⟩, regularActionOrder)] }
  | renameOver {old new : Path} {koa koa' : Fin N} {k₁ k' : Kernel}
      (ho : v.kernel.names old ≠ none) (hn : v.kernel.names new ≠ none)
      (hr : sysRename v.kernel new v.temp = (.ok (), k₁))
      (hl : sysLink k₁ old new = (.ok (), k')) :
      PathStep v (.rename old new) { v with
        kernel := k'
        commits := v.commits ++
          [(.renameCommit ⟨koa, some (koa', v.temp), old, new⟩, regularActionOrder)]
        undos := v.undos ++
          [(.renameUndo ⟨koa, some (koa', v.temp), old, new⟩, regularActionOrder)] }
  | unlinkMissing {p : Path} (hp : v.kernel.names p = none) : PathStep v (.unlink p) v
  | unlink {p : Path} {koa : Fin N} (hp : v.kernel.names p ≠ none) :
      PathStep v (.unlink p) { v with
        commits := v.commits ++ [(.unlinkCommit koa p, koaDestroyActionOrder)] }

/-- where a call leaves the view: at a step, or where it was when it aborts the transaction -/
def PathPost (v : View N) (c : XCall) : Except Stop Int → View N → Prop
  | .ok _, v' => PathStep v c v'
  | .error (.abort _), v' => v' = v
  | .error .internalError, _ => True

theorem ino_eq_zero {o : Option FileId} : o.elim 0 FileId.ino = (0 : UInt32) ↔ o = none := by
  cases o with
  | none => simp
  | some f => simp [f.ino_ne]

theorem pathPost_error {v : View N} {c : XCall} (e : Stop) : PathPost v c (.error e) v := by
  cases e with
  | abort r => rfl
  | internalError => trivial

theorem ok_of_isOk {α : Type} {r : Except Errno α} (h : r.isOk = true) : ∃ a, r = .ok a := by
  cases r with
  | error e => cases h
  | ok a => exact ⟨a, rfl⟩

theorem xUnlink_view (p : Path) (result : Option Nat) (v : View N) (hv : v.xactstate = .retryable) :
    wp okStep (xUnlink p result : XProg n N Int) (PathPost v (.unlink p)) v := by
  simp only [xUnlink, call_bind, wp_op, okStep, natStep, succeeds]
  rintro _ _ ⟨⟨rfl, rfl⟩, -⟩
  rw [hv]
  simp only [wp_op]
  rintro _ _ ⟨rfl, -⟩ _ _ ⟨⟨rfl, rfl⟩, -⟩
  simp only [ino_eq_zero]
  split
  · rintro _ _ ⟨rfl, -⟩
    rw [wp_finish]
    exact .unlinkMissing ‹_›
  · refine wp_same (attachPath_view _ _ _) pathPost_error fun koa => ?_
    refine wp_of_same (allocArgs_view _ _) trivial fun _ => ?_
    rintro _ _ ⟨rfl, -⟩ _ _ ⟨rfl, -⟩
    rw [wp_finish]
    exact .unlink ‹_›

theorem xCreate_view (p : Path) (result : Option Nat) (v : View N) (hv : v.xactstate = .retryable) :
    wp okStep (xCreate p result : XProg n N Int) (PathPost v (.create p)) v := by
  simp only [xCreate, call_bind, wp_op, okStep, natStep, succeeds]
  rintro _ _ ⟨⟨rfl, rfl⟩, -⟩
  rw [hv]
  simp only [wp_op]
  rintro _ _ ⟨rfl, -⟩ _ _ ⟨⟨rfl, rfl⟩, -⟩
  simp only [ino_eq_zero]
  split
  · simp only [xCreateCase1, call_bind, wp_op]
    rintro r _ ⟨⟨hr, rfl⟩, hok⟩
    obtain ⟨fd, rfl⟩ := ok_of_isOk hok
    rintro i _ ⟨⟨-, rfl⟩, -⟩ koa _ ⟨rfl, -⟩ _ _ ⟨rfl, -⟩ _ _ ⟨rfl, -⟩
    refine wp_of_same (acquireNew_view _ _) trivial fun _ => ?_
    refine wp_of_same (allocArgs_view _ _) trivial fun _ => ?_
    rintro _ _ ⟨rfl, -⟩ _ _ ⟨rfl, -⟩ _ _ ⟨rfl, -⟩
    rw [wp_finish]
    exact .createNew ‹_› (Prod.ext hr.symm rfl)
  · simp only [xCreateCase2, call_bind]
    refine wp_same ?_ pathPost_error fun _ => ?_
    · simp only [xCreateIsolate, call_bind, wp_op]
      rintro (_ | koa) _ ⟨rfl, -⟩
      · rfl
      · exact xCreateCase2a_view koa _
    · simp only [wp_op]
      rintro _ _ ⟨⟨rfl, rfl⟩, -⟩ r _ ⟨⟨hr, rfl⟩, hok⟩ r' _ ⟨⟨hr', rfl⟩, hok'⟩
      obtain ⟨⟨⟩, rfl⟩ := ok_of_isOk hok
      obtain ⟨fd, rfl⟩ := ok_of_isOk hok'
      rintro i _ ⟨⟨-, rfl⟩, -⟩ koa _ ⟨rfl, -⟩ _ _ ⟨rfl, -⟩ _ _ ⟨rfl, -⟩
      refine wp_of_same (acquireNew_view _ _) trivial fun _ => ?_
      refine wp_of_same (allocArgs_view _ _) trivial fun _ => ?_
      rintro _ _ ⟨rfl, -⟩ _ _ ⟨rfl, -⟩ _ _ ⟨rfl, -⟩ _ _ ⟨rfl, -⟩
      rw [wp_finish]
      exact .createOver ‹_› (Prod.ext hr.symm rfl) (Prod.ext hr'.symm rfl)

theorem xRename_view (old new : Path) (result : Option Nat) (v : View N)
    (hv : v.xactstate = .retryable) :
    wp okStep (xRename old new result : XProg n N Int) (PathPost v (.rename old new)) v := by
  simp only [xRename, call_bind, wp_op, okStep, natStep, succeeds]
  rintro _ _ ⟨⟨rfl, rfl⟩, -⟩
  rw [hv]
  simp only [wp_op]
  rintro _ _ ⟨rfl, -⟩ _ _ ⟨⟨rfl, rfl⟩, -⟩
  simp only [ino_eq_zero]
  split
  · rintro _ _ ⟨rfl, -⟩
    rw [wp_finish]
    exact .renameMissing ‹_›
  · refine wp_same (attachPath_view _ _ _) pathPost_error fun koa => ?_
    simp only [wp_op]
    rintro _ v ⟨⟨rfl, rfl⟩, -⟩
    by_cases hn : v.kernel.names new = none
    · simp only [xRenameAside, hn, Option.elim_none, if_true, pure_eq, ret_bind, wp_op]
      rintro r _ ⟨⟨hr, rfl⟩, hok⟩
      obtain ⟨⟨⟩, rfl⟩ := ok_of_isOk hok
      refine wp_of_same (allocArgs_view _ _) trivial fun _ => ?_
      rintro _ _ ⟨rfl, -⟩ _ _ ⟨rfl, -⟩ _ _ ⟨rfl, -⟩
      rw [wp_finish]
      exact .renameNew ‹_› hn (Prod.ext hr.symm rfl)
    · simp only [xRenameAside, ino_eq_zero, hn, if_false]
      refine wp_bind (wp_same (attachPath_view _ _ _) pathPost_error fun koa' => ?_)
      simp only [call_bind, wp_op]
      rintro _ _ ⟨⟨rfl, rfl⟩, -⟩ r _ ⟨⟨hr, rfl⟩, hok⟩ r' _ ⟨⟨hr', rfl⟩, hok'⟩
      obtain ⟨⟨⟩, rfl⟩ := ok_of_isOk hok
      obtain ⟨⟨⟩, rfl⟩ := ok_of_isOk hok'
      refine wp_of_same (allocArgs_view _ _) trivial fun _ => ?_
      rintro _ _ ⟨rfl, -⟩ _ _ ⟨rfl, -⟩ _ _ ⟨rfl, -⟩
      rw [wp_finish]
      exact .renameOver ‹_› hn (Prod.ext hr.symm rfl) (Prod.ext hr'.symm rfl)

/-- the calls on names -/
def XCall.OnNames : XCall → Prop
  | .create _ => True
  | .rename _ _ => True
  | .unlink _ => True
  | _ => False

/-- **The steps of a call on names.** -/
theorem path_view {c : XCall} (hc : c.OnNames) (result : Option Nat) (v : View N)
    (hv : v.xactstate = .retryable) :
    wp okStep (c.prog result : XProg n N Int) (PathPost v c) v := by
  cases c with
  | create p => exact xCreate_view p result v hv
  | rename old new => exact xRename_view old new result v hv
  | unlink p => exact xUnlink_view p result v hv
  | _ => exact hc.elim

end XCalls
