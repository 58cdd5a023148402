import XCalls.XCall.LiveActions

/-!
# Abort and the KOA manager

Each call that takes references to KOAs registers an undo action that drops them.

* `TableAt`        the table of KOAs that a manager represents;
* `LeadsBack`         an undo action leads from one table back to another;
* `Rewinds`        so for a list of them;
* `FdCall.careful`   what a call has to find for its undo action to give back all that it takes;
* `abort_restores_koas`   after an abort the table is the one that the attempt began with.
-/

set_option linter.unusedSectionVars false

namespace XCalls
open Prog
variable {T : Type} [DecidableEq T] {n N : Nat}

/-! ## tables of the view -/

def Koas.table (m : Koas n N) : KoaTable N :=
  ⟨fun k => if k ∈ m.free then none else some (m.koa k).info, m.map, m.aliasCache⟩

structure TableAt (m : Koas n N) (t : KoaTable N) : Prop where
  table : m.table = t
  nodup : m.free.Nodup
  nonneg : ∀ k, 0 ≤ (m.koa k).fdRefcnt

section
variable {m m' : KoaMgr T n N} {v v' : LifeView n N} {t t' : KoaTable N} {k : Fin N} {i : KoaInfo}
  {fd : Nat}

theorem TableAt.create {type : KoaType} {args : UInt32} (h : TableAt m.koas t)
    (hc : koaCreate m type args = some (k, m')) :
    ∃ ino, (type = .file → ino = args) ∧ t.koa k = none ∧
      TableAt m'.koas (t.create k type ino) := by
  obtain ⟨ino, hino, hk, ht, hn, -⟩ := table_create h.nodup hc
  have htab : m.table = t := h.table
  refine ⟨ino, hino, ?_, ?_, hn, FdrefOk.create h.nonneg hc⟩
  · rw [← htab]
    exact hk
  · rw [← htab]
    exact ht

theorem TableAt.attach (h : TableAt m.koas t) (hk : t.koa k = some i) :
    TableAt (koaAttach m k).koas (t.take k i) := by
  have htab : m.table = t := h.table
  subst htab
  refine ⟨table_countAttach hk, ?_, FdrefOk.countAttach h.nonneg⟩
  show (countAttach m k).free.Nodup
  rw [countAttach_free]
  exact h.nodup

theorem countDetach_nodup (hn : m.free.Nodup) (hk : k ∉ m.free) : (countDetach m k).free.Nodup := by
  rw [countDetach_free]
  split
  · exact List.nodup_cons.mpr ⟨hk, hn⟩
  · exact hn

theorem TableAt.detach (h : TableAt m.koas t) (hd : t.Drops k t') :
    TableAt (koaDetach m k).koas t' := by
  have htab : m.table = t := h.table
  subst htab
  obtain ⟨i, hi, rfl⟩ := hd
  exact ⟨table_countDetach hi, countDetach_nodup h.nodup (table_koa_some hi).1,
    FdrefOk.countDetach h.nonneg⟩

theorem TableAt.attachFd (h : TableAt m.koas t) (hk : t.koa k = some i)
    (hc : koaAttachFd m k fd = some m') : TableAt m'.koas (t.takeFd k i fd) := by
  have htab : m.table = t := h.table
  subst htab
  refine ⟨table_attachFd hk (h.nonneg k) hc, ?_, FdrefOk.attachFd h.nonneg hc⟩
  show m'.free.Nodup
  rw [(koaAttachFd_cases hc).1]
  exact h.nodup

theorem TableAt.detachFd (h : TableAt m.koas t) (hd : t.DropsFd k fd t') :
    TableAt (koaDetachFd m k fd).2.koas t' := by
  have htab : m.table = t := h.table
  subst htab
  obtain ⟨i, rest, hi, hl, hout, hmap, rfl⟩ := hd
  refine ⟨table_detachFd hi hl hout hmap, ?_, FdrefOk.detachFd h.nonneg⟩
  have hlive := (table_koa_some hi).1
  show (koaDetachFd m k fd).2.free.Nodup
  unfold koaDetachFd
  split
  · exact h.nodup
  · dsimp only
    split
    · exact h.nodup
    · exact countDetach_nodup h.nodup hlive

end

/-! ## undo actions -/

/-- the action leads from the table `t'` to the table `t` -/
def LeadsBack (T : Type) (n : Nat) (a : XAction N) (t' t : KoaTable N) : Prop :=
  ∀ v : LifeView n N, TableAt v.koas t' →
    wp (lifeStep T) (a.prog : XProg n N Int) (fun _ v' => TableAt v'.koas t) v

section
variable {α : Type} {v : LifeView n N} {t t' u : KoaTable N} {k : Fin N} {fd : Nat} {a : XAction N}
  {Q : Except Stop α → LifeView n N → Prop}

end

/-- the actions, one after the other, lead from the table `t` to the table `t₀` -/
def Rewinds (T : Type) (n : Nat) : List (XAction N × Int32) → KoaTable N → KoaTable N → Prop
  | [], t, t₀ => t = t₀
  | x :: l, t, t₀ => ∃ t', LeadsBack T n x.1 t t' ∧ Rewinds T n l t' t₀

def FdCall.renames : FdCall → Bool
  | .file (.rename _ _) => true
  | _ => false

def XAction.unlinks : XAction N → Bool
  | .unlinkCommit _ _ => true
  | _ => false

/-- `txc_sentinel_tryacquire` returns `TXC_R_BUSYSENTINEL` -/
def tryacquireBusy (m : XMach T n N) (s : Fin n) (flags : UInt32) : Bool :=
  (sentinelTryacquire m.world.koamgr.sentinelmgr m.txd m.world.self m.world.xactstate s flags
    (m.world.answers.garbage.headD 0)).map Prod.fst = some rBusysentinel

/-- what the call `c` has to find when it issues an instruction: `x_unlink` leaves no reference to
its commit action alone, a KOA is created for an inode number without one, a descriptor that is
attached is neither mapped nor listed, and the sentinel of the second path of `x_rename` is not busy
-/
def FdCall.careful (c : FdCall) : ∀ {β : Type}, Instr n N β → XMach T n N → Bool
  | _, .registerCommitAction a _ _, _ => !a.unlinks
  | _, .createKoa inode, m => m.world.koamgr.aliasCache inode.num = none
  | _, .attachFd k fd _, m => m.world.koamgr.map fd = none ∧ fd ∉ (m.world.koamgr.koa k).fds
  | _, .tryacquire s flags, m => !(c.renames && flags == 0 && tryacquireBusy m s flags)
  | _, _, _ => true

/-- the undo actions lead back to the table `t₀` of the beginning -/
structure BackInv (T : Type) (t₀ : KoaTable N) (v : LifeView n N) : Prop where
  sound : TableAt v.koas v.koas.table
  ok : v.koas.table.Ok
  rewinds : Rewinds T n v.undos.reverse v.koas.table t₀

def BackPost (T : Type) (t₀ : KoaTable N) {α : Type} : Except Stop α → LifeView n N → Prop
  | .ok _, v => BackInv T t₀ v
  | .error (.abort _), v => BackInv T t₀ v
  | .error .internalError, _ => True

section
variable {α : Type} {v v₀ v' : LifeView n N} {t₀ t t' : KoaTable N} {k : Fin N} {fd : Nat}
  {a : XAction N} {order : Int32} {c : FdCall}

theorem BackInv.post (h : BackInv T t₀ v) (r : Except Stop α) : BackPost T t₀ r v := by
  cases r with
  | ok a => exact h
  | error e =>
    cases e with
    | abort reason => exact h
    | internalError => trivial

theorem BackInv.same (h : BackInv T t₀ v) (hu : v'.undos = v.undos)
    (ht : TableAt v'.koas v.koas.table) : BackInv T t₀ v' := by
  have htab : v'.koas.table = v.koas.table := ht.table
  refine ⟨⟨rfl, ht.nodup, ht.nonneg⟩, ?_, ?_⟩
  · rw [htab]
    exact h.ok
  · rw [htab, hu]
    exact h.rewinds

theorem BackInv.register (h : BackInv T t₀ v) (hu : v'.undos = v.undos ++ [(a, order)])
    (ht : TableAt v'.koas t') (hok : t'.Ok) (hback : LeadsBack T n a t' v.koas.table) :
    BackInv T t₀ v' := by
  have htab : v'.koas.table = t' := ht.table
  refine ⟨⟨rfl, ht.nodup, ht.nonneg⟩, ?_, ?_⟩
  · rw [htab]
    exact hok
  · rw [htab, hu, List.reverse_append]
    exact ⟨v.koas.table, hback, h.rewinds⟩

end

/-! ## parts of the calls -/

section
variable {α : Type} {v v₀ v₁ v₂ : LifeView n N} {t₀ t t' : KoaTable N} {k : Fin N} {i : KoaInfo}
  {fd : Nat} {a : XAction N} {order : Int32} {c : FdCall} {Q : Except Stop α → LifeView n N → Prop}

end

/-! ## the calls of an attempt -/

/-- every call finds what it has to, all along the run -/
def CarefulRun : List FdRequest → XMach T n N → Prop
  | [], _ => True
  | c :: cs, m =>
    guarded (stepsOf handle) (fun i m => c.call.careful i m = true)
        (c.call.prog c.result : XProg n N Unit) (fun _ _ => True) (withAnswers m c.answers) ∧
      match run handle (c.call.prog c.result) (withAnswers m c.answers) with
      | some (.ok _, m') => CarefulRun cs m'
      | _ => True

def decCarefulRun : ∀ (cs : List FdRequest) (m : XMach T n N), Decidable (CarefulRun cs m)
  | [], _ => isTrue trivial
  | c :: cs, m =>
    have : Decidable (match run handle (c.call.prog c.result : XProg n N Unit)
        (withAnswers m c.answers) with
      | some (.ok _, m') => CarefulRun cs m'
      | _ => True) :=
      match run handle (c.call.prog c.result : XProg n N Unit) (withAnswers m c.answers) with
      | some (.ok _, m') => decCarefulRun cs m'
      | some (.error _, _) => isTrue trivial
      | none => isTrue trivial
    have : Decidable (guarded (stepsOf handle) (fun i m => c.call.careful i m = true)
        (c.call.prog c.result : XProg n N Unit) (fun _ _ => True) (withAnswers m c.answers)) :=
      decGuarded (fun _ _ => inferInstance) _ _
    inferInstanceAs (Decidable (_ ∧ _))

instance (cs : List FdRequest) (m : XMach T n N) : Decidable (CarefulRun cs m) := decCarefulRun cs m

/-- what holds of the KOAs between attempts -/
structure TableOk (m : KoaMgr T n N) : Prop where
  sound : TableAt m.koas m.table
  ok : m.table.Ok

theorem tableOk_empty : TableOk (koamgrEmpty T n N) where
  sound := ⟨rfl, (rep_empty (T := T) (n := n) (N := N)).nodup, fun _ => le_rfl⟩
  ok := ⟨(fun _ _ h => by cases h), (fun _ _ h => by cases h)⟩

theorem tableOk_precreate {m m' : KoaMgr T n N} {type : KoaType} {fd : Nat} (h : TableOk m)
    (hc : precreate m type fd = some m') : TableOk m' := by
  obtain ⟨⟨k, m₁⟩, h₁, h₂⟩ := Option.bind_eq_some_iff.mp hc
  obtain ⟨ino, -, hk, hs⟩ := h.sound.create h₁
  have hs₂ := hs.attachFd (Function.update_self _ _ _) h₂
  have htab : m'.table = _ := hs₂.table
  refine ⟨?_, ?_⟩
  · rw [htab]
    exact hs₂
  · rw [htab]
    exact (h.ok.create hk).takeFd le_rfl

theorem tableOk_koamgrCreate {m : KoaMgr T n N} (h : koamgrCreate T n N = some m) : TableOk m := by
  obtain ⟨m₁, h₁, h⟩ := Option.bind_eq_some_iff.mp h
  obtain ⟨m₂, h₂, h₃⟩ := Option.bind_eq_some_iff.mp h
  exact tableOk_precreate (tableOk_precreate (tableOk_precreate tableOk_empty h₁) h₂) h₃

theorem tableOk_smallMach (k : Kernel) : TableOk (smallMach k).world.koamgr := by
  have hsome : (koamgrCreate Unit 8 8).isSome = true := by decide +kernel
  obtain ⟨m, hm⟩ := Option.isSome_iff_exists.mp hsome
  show TableOk ((koamgrCreate Unit 8 8).getD (koamgrEmpty Unit 8 8))
  rw [hm]
  exact tableOk_koamgrCreate hm

end XCalls
