import XCalls.XCall.Threads

/-!
# Which file a KOA is for

The alias cache knows a file by its inode number, and the files of two devices may have one.

* `Records`, `recordStep`   which file each KOA was created for, and the pairs of a file and a KOA
                   that met; `keyedStep` is the step of both views;
* `FileInv`        files with a KOA out of the pool have different inode numbers, descriptors are
                   mapped to the KOA of their file, and whatever met belongs together;
* `Koas.Agrees`    no KOA of another file has the inode number of a file;
* `FileInv.create`, `FileInv.attach`, ...   the operations of the manager keep the invariant.
-/

set_option linter.unusedSectionVars false

namespace XCalls
open Prog
variable {T : Type} [DecidableEq T] {n N : Nat}

/-! ## the view -/

structure Records (N : Nat) where
  koaFile : Fin N → Option FileId
  log : List (Option FileId × Option FileId)
  undos : List (XAction N × Int32)

def records (m : XMach T n N) : Records N :=
  { koaFile := m.world.koaFile
    log := m.world.log
    undos := others m.txd.undoActionList.entries }

def Records.meet (r : Records N) (f : Option FileId) (k : Option (Fin N)) : Records N :=
  match k with
  | none => r
  | some k => { r with log := (f, r.koaFile k) :: r.log }

/-- the KOA that loses its entry of the alias cache when a reference of `k` is dropped -/
def Koas.removed (c : Koas n N) (k : Fin N) : Option (Fin N) :=
  if (c.koa k).refcnt - 1 = 0 ∧ (c.koa k).type = .file then c.aliasCache (c.koa k).stIno else none

def recordStep : ∀ {β : Type}, Instr n N β → β → InodeView n N → Records N → Records N → Prop
  | _, .registerUndoAction a _ order, _, _, r, r' =>
    r' = { r with undos := r.undos ++ [(a, order)] }
  | _, .lookupInode inode, b, _, r, r' => r' = r.meet inode.of b
  | _, .createKoa inode, b, _, r, r' =>
    r' = { r with koaFile := Function.update r.koaFile b inode.of }
  | _, .attachFd k fd _, _, v, r, r' => r' = r.meet (v.kernel.fileOf fd) (some k)
  | _, .detachKoa k, _, v, r, r' => r' = r.meet (r.koaFile k) (v.koas.removed k)
  | _, .detachFd k _ _, b, v, r, r' =>
    r' = if b then r.meet (r.koaFile k) (v.koas.removed k) else r
  | _, .createKoaOf _, _, _, _, _ => True
  | _, _, _, _, r, r' => r' = r

/-- the steps of the calls and actions on both views -/
def keyedStep (T : Type) : StepRel (Instr n N) (InodeView n N × Records N) :=
  fun i b s s' => inodeStep T i b s.1 s'.1 ∧ recordStep i b s.1 s.2 s'.2

section
variable {m m' : XMach T n N}

theorem records_syscall {β : Type} {f : Kernel → Except Errno β × Kernel} {b : Except Errno β}
    (h : some (syscall m f) = some (b, m')) : records m' = records m := by
  rcases syscall_cases (Option.some.inj h) with ⟨e, -, -, rfl⟩ | ⟨-, -, rfl⟩
  · rfl
  · rfl

theorem records_meet (f : Option FileId) (k : Option (Fin N)) (koamgr : KoaMgr T n N) :
    records { m with world := { m.world.meet f k with koamgr := koamgr } }
      = (records m).meet f k := by
  cases k <;> rfl

theorem handle_recordStep {β : Type} {i : Instr n N β} {b : β} (h : handle i m = some (b, m')) :
    recordStep i b (inodeView m) (records m) (records m') := by
  cases i with
  | libcOpen | libcClose | libcDup | libcRename | libcLink | libcUnlink | libcRead | libcWrite
  | libcLseek | libcFtruncate | libcPwrite | libcPipe | libcSocket | libcFsync | libcFdatasync
  | libcSendmsg | libcRecvmsg => exact records_syscall h
  | createKoaOf => trivial
  | registerCommitAction a result order =>
    cases h
    simp [recordStep, records, txRegisterCommitAction_eq]
  | registerUndoAction a result order =>
    cases h
    simp [recordStep, records, txRegisterUndoAction_eq, others]
  | lookupInode inode =>
    cases h
    exact records_meet _ _ m.world.koamgr
  | createKoa inode =>
    simp only [handle, Option.map_eq_some_iff] at h
    obtain ⟨⟨k, mgr⟩, -, h2⟩ := h
    cases h2
    rfl
  | attachFd k fd lock =>
    simp only [handle, Option.map_eq_some_iff] at h
    obtain ⟨mgr, -, h2⟩ := h
    cases h2
    rfl
  | detachKoa k =>
    cases h
    exact records_meet _ _ _
  | detachFd k fd lock =>
    cases h
    show _ = if _ then _ else _
    split
    · exact records_meet _ _ _
    · rfl
  | linearMalloc size =>
    simp only [handle] at h
    split at h
    all_goals
      cases h
      rfl
  | store p v =>
    cases h
    cases p <;> rfl
  | tryacquire s flags =>
    simp only [handle, Option.map_eq_some_iff] at h
    obtain ⟨⟨r, mgr, txd⟩, h1, h2⟩ := h
    cases h2
    obtain ⟨-, hu⟩ := Prod.mk.inj (actions_tryacquire h1)
    show records _ = records m
    simp only [records, hu]
  | getSentinel k =>
    simp only [handle, Option.map_eq_some_iff] at h
    obtain ⟨s, -, h2⟩ := h
    cases h2
    rfl
  | _ =>
    cases h
    rfl

theorem run_keyed {α : Type} {p : XProg n N α}
    {Q : Except Stop α → InodeView n N × Records N → Prop} {r : Except Stop α}
    (hwp : wp (keyedStep T) p Q (inodeView m, records m))
    (h : run handle p m = some (r, m')) : Q r (inodeView m', records m') := by
  have hR : ∀ {β : Type} (i : Instr n N β) (b : β) (s s' : XMach T n N), True →
      handle i s = some (b, s') →
      keyedStep T i b (inodeView s, records s) (inodeView s', records s') ∧ True :=
    fun i b s s' _ hs => ⟨⟨handle_inodeStep hs, handle_recordStep hs⟩, trivial⟩
  exact (wp_run hR trivial hwp h).1

end

/-! ## the invariant -/

def Koas.OfFile (c : Koas n N) (k : Fin N) : Prop := k ∉ c.free ∧ (c.koa k).type = .file

/-- `files` are the files that the descriptors are open on, and `refs k` references to `k` will be
dropped by actions -/
structure FileInv (c : Koas n N) (r : Records N) (files : Nat → Option FileId)
    (refs : Fin N → Nat) : Prop where
  held : Held c [] refs
  known : ∀ k, c.OfFile k → ∃ f, r.koaFile k = some f ∧ f.ino = (c.koa k).stIno
  agree : ∀ k k', c.OfFile k → c.OfFile k' → (c.koa k).stIno = (c.koa k').stIno →
    r.koaFile k = r.koaFile k'
  mapped : ∀ fd k, c.map fd = some k → (c.koa k).type = .file → files fd = r.koaFile k
  met : ∀ p ∈ r.log, p.1 = p.2

/-- no KOA of another file has the inode number of `f` -/
def Koas.Agrees (c : Koas n N) (r : Records N) (f : FileId) : Prop :=
  ∀ k, c.OfFile k → (c.koa k).stIno = f.ino → r.koaFile k = some f

structure SameFiles (c c' : Koas n N) : Prop where
  live : ∀ k, k ∉ c'.free → k ∉ c.free
  type : ∀ k, (c'.koa k).type = (c.koa k).type
  stIno : ∀ k, (c'.koa k).stIno = (c.koa k).stIno

section
variable {m m' : KoaMgr T n N} {c c' : Koas n N} {r r' : Records N}
  {files files' : Nat → Option FileId} {refs refs' : Fin N → Nat} {k : Fin N} {fd : Nat}
  {f : FileId}

theorem SameFiles.ofFile (h : SameFiles c c') (hk : c'.OfFile k) : c.OfFile k :=
  ⟨h.live k hk.1, (h.type k).symm.trans hk.2⟩

theorem Koas.Agrees.same (ha : c.Agrees r f) (h : SameFiles c c') (hr : r'.koaFile = r.koaFile) :
    c'.Agrees r' f := by
  intro k hk hi
  rw [hr]
  exact ha k (h.ofFile hk) ((h.stIno k).symm.trans hi)

theorem Koas.Agrees.records (ha : c.Agrees r f) (hr : r'.koaFile = r.koaFile) : c.Agrees r' f :=
  ha.same ⟨fun _ hk => hk, fun _ => rfl, fun _ => rfl⟩ hr

theorem FileInv.cached (h : FileInv c r files refs) {ino : UInt32}
    (hk : c.aliasCache ino = some k) : c.OfFile k ∧ (c.koa k).stIno = ino := by
  obtain ⟨hlive, ht, hi⟩ := h.held.cached ino k hk
  exact ⟨⟨hlive, ht⟩, hi⟩

theorem FileInv.weaken (h : FileInv c r files refs) (hr : ∀ k, refs' k ≤ refs k) :
    FileInv c r files refs' where
  held := h.held.mono (fun _ hx => hx) hr
  known := h.known
  agree := h.agree
  mapped := h.mapped
  met := h.met

theorem FileInv.meet (h : FileInv c r files refs) {k : Option (Fin N)} {f : Option FileId}
    (hk : ∀ x, k = some x → f = r.koaFile x) : FileInv c (r.meet f k) files refs := by
  cases k with
  | none => exact h
  | some x =>
    refine ⟨h.held, h.known, h.agree, h.mapped, fun p hp => ?_⟩
    rcases List.mem_cons.mp hp with rfl | hp
    · exact hk x rfl
    · exact h.met p hp

theorem FileInv.lookup (h : FileInv c r files refs) (ha : c.Agrees r f) :
    FileInv c (r.meet (some f) (c.aliasCache f.ino)) files refs := by
  refine h.meet fun x hx => ?_
  obtain ⟨hof, hi⟩ := h.cached hx
  exact (ha x hof hi).symm

theorem FileInv.remove (h : FileInv c r files refs) (hk : k ∉ c.free) :
    FileInv c (r.meet (r.koaFile k) (c.removed k)) files refs := by
  refine h.meet fun x hx => ?_
  unfold Koas.removed at hx
  split at hx
  · rename_i hlast
    obtain ⟨hof, hi⟩ := h.cached hx
    exact h.agree k x ⟨hk, hlast.2⟩ hof hi.symm
  · cases hx

/-- an operation on the KOAs after which they are of the same files -/
theorem FileInv.change (h : FileInv c r files refs) (hs : SameFiles c c') (hheld : Held c' [] refs')
    (hmap : ∀ fd k, c'.map fd = some k → (c.koa k).type = .file → files' fd = r.koaFile k) :
    FileInv c' r files' refs' where
  held := hheld
  known k hk := by
    rw [hs.stIno k]
    exact h.known k (hs.ofFile hk)
  agree k k' hk hk' hi := by
    rw [hs.stIno k, hs.stIno k'] at hi
    exact h.agree k k' (hs.ofFile hk) (hs.ofFile hk') hi
  mapped fd k hk ht := hmap fd k hk ((hs.type k).symm.trans ht)
  met := h.met

/-! ### the operations of the manager -/

/-- `txc_koa_detach` -/
def Koas.detach (c : Koas n N) (k : Fin N) : Koas n N := (koaDetach c.mgr k).koas

theorem koas_detach (m : KoaMgr T n N) (k : Fin N) : (koaDetach m k).koas = m.koas.detach k :=
  koas_countDetach (T := T) (S := Unit) rfl k

theorem FileInv.create (h : FileInv m.koas r files refs) (ha : m.koas.Agrees r f)
    (hc : koaCreate m .file f.ino = some (k, m')) :
    FileInv m'.koas { r with koaFile := Function.update r.koaFile k (some f) } files refs ∧
      (∀ g, m.koas.Agrees r g → (g.ino = f.ino → g = f) →
        m'.koas.Agrees { r with koaFile := Function.update r.koaFile k (some f) } g) ∧
      k ∉ m'.koas.free := by
  obtain ⟨rest, hfree, hrest, hmap, ho, -, -⟩ := koaCreate_cases hc
  obtain ⟨htype, hstIno, -⟩ := koaCreate_info hc
  have hino := hstIno rfl
  obtain ⟨hheld, hlive, -⟩ := h.held.create hc
  -- the KOAs out of the pool are the new one and the old ones
  have hcases : ∀ x, m'.koas.OfFile x → x = k ∨ x ≠ k ∧ m.koas.OfFile x ∧ m'.koa x = m.koa x := by
    intro x hx
    by_cases hxk : x = k
    · exact Or.inl hxk
    · refine Or.inr ⟨hxk, ⟨fun hf => hx.1 ?_, ?_⟩, ho x hxk⟩
      · have hf : x ∈ m.free := hf
        rw [hfree] at hf
        show x ∈ m'.free
        rw [hrest]
        exact (List.mem_cons.mp hf).resolve_left hxk
      · have ht : (m'.koa x).type = .file := hx.2
        rw [ho x hxk] at ht
        exact ht
  have hfile : ∀ x, x ≠ k → Function.update r.koaFile k (some f) x = r.koaFile x :=
    fun x hx => Function.update_of_ne hx _ _
  have hkeep : ∀ g, m.koas.Agrees r g → (g.ino = f.ino → g = f) →
      m'.koas.Agrees { r with koaFile := Function.update r.koaFile k (some f) } g := by
    intro g hg hgf x hx hi
    have hi : (m'.koa x).stIno = g.ino := hi
    rcases hcases x hx with rfl | ⟨hxk, hof, hkoa⟩
    · rw [hgf (by rw [← hi, hino])]
      exact Function.update_self ..
    · refine (hfile x hxk).trans (hg x hof ?_)
      show (m.koa x).stIno = g.ino
      rw [← hkoa]
      exact hi
  have hnew := hkeep f ha fun _ => rfl
  refine ⟨⟨hheld, ?_, ?_, ?_, h.met⟩, hkeep, hlive⟩
  · intro x hx
    rcases hcases x hx with rfl | ⟨hxk, hof, hkoa⟩
    · exact ⟨f, Function.update_self .., hino.symm⟩
    · obtain ⟨g, hg, hi⟩ := h.known x hof
      refine ⟨g, (hfile x hxk).trans hg, hi.trans ?_⟩
      show (m.koa x).stIno = (m'.koa x).stIno
      rw [hkoa]
  · intro x y hx hy hi
    have hi : (m'.koa x).stIno = (m'.koa y).stIno := hi
    rcases hcases x hx with rfl | ⟨hxk, hof, hkoa⟩
    · exact (Function.update_self x (some f) r.koaFile).trans (hnew y hy (hi.symm.trans hino)).symm
    · rcases hcases y hy with rfl | ⟨hyk, hofy, hkoay⟩
      · exact (hnew x hx (hi.trans hino)).trans (Function.update_self y (some f) r.koaFile).symm
      · rw [hkoa, hkoay] at hi
        show Function.update r.koaFile k (some f) x = Function.update r.koaFile k (some f) y
        rw [hfile x hxk, hfile y hyk]
        exact h.agree x y hof hofy hi
  · intro fd x hx ht
    have hx : m.map fd = some x := by
      rw [← hmap]
      exact hx
    have hxk : x ≠ k := by
      intro he
      refine h.held.attached fd x (Or.inl hx) ?_
      show x ∈ m.free
      rw [hfree, he]
      exact List.mem_cons_self
    have ht : (m'.koa x).type = .file := ht
    rw [ho x hxk] at ht
    exact (h.mapped fd x hx ht).trans (hfile x hxk).symm

theorem sameFiles_countAttach (m : KoaMgr T n N) (k : Fin N) :
    SameFiles m.koas (countAttach m k).koas := by
  have hkoa : ∀ x, ((countAttach m k).koa x).type = (m.koa x).type ∧
      ((countAttach m k).koa x).stIno = (m.koa x).stIno := by
    intro x
    rw [countAttach_koa]
    split
    · rename_i hx
      rw [hx]
      exact ⟨rfl, rfl⟩
    · exact ⟨rfl, rfl⟩
  refine ⟨fun x hx => ?_, fun x => (hkoa x).1, fun x => (hkoa x).2⟩
  have hx : x ∉ (countAttach m k).free := hx
  rw [countAttach_free] at hx
  exact hx

theorem sameFiles_countDetach (m : KoaMgr T n N) (k : Fin N) :
    SameFiles m.koas (countDetach m k).koas := by
  have hkoa : ∀ x, ((countDetach m k).koa x).type = (m.koa x).type ∧
      ((countDetach m k).koa x).stIno = (m.koa x).stIno := by
    intro x
    rw [countDetach_koa]
    split
    · rename_i hx
      rw [hx]
      exact ⟨rfl, rfl⟩
    · exact ⟨rfl, rfl⟩
  refine ⟨fun x hx hf => hx ?_, fun x => (hkoa x).1, fun x => (hkoa x).2⟩
  show x ∈ (countDetach m k).free
  rw [countDetach_free]
  split
  · exact List.mem_cons_of_mem k hf
  · exact hf

theorem FileInv.attach (h : FileInv m.koas r files refs) (hk : k ∉ m.free) :
    FileInv (koaAttach m k).koas r files (Function.update refs k (refs k + 1)) := by
  refine h.change (sameFiles_countAttach m k) (h.held.attach hk) fun fd x hx => h.mapped fd x ?_
  have hx : (countAttach m k).map fd = some x := hx
  rw [countAttach_map] at hx
  exact hx

theorem FileInv.detach (h : FileInv m.koas r files refs) (hk : refs k = refs' k + 1)
    (ho : ∀ x, x ≠ k → refs' x = refs x) :
    FileInv (m.koas.detach k) (r.meet (r.koaFile k) (m.koas.removed k)) files refs' := by
  rw [← koas_detach]
  have hlive : k ∉ m.koas.free := h.held.taken k (by omega)
  refine (h.remove hlive).change (sameFiles_countDetach m k) (h.held.detach hk ho)
    fun fd x hx => (h.remove hlive).mapped fd x ?_
  have hx : (countDetach m k).map fd = some x := hx
  rw [countDetach_map] at hx
  exact hx

/-- a descriptor that was just opened on `f` is attached to a KOA of `f` -/
theorem FileInv.attachFd (h : FileInv m.koas r files refs) (hk : k ∉ m.free)
    (hf : r.koaFile k = some f) (hc : koaAttachFd m k fd = some m') :
    FileInv m'.koas (r.meet (some f) (some k)) (Function.update files fd (some f)) refs := by
  obtain ⟨hfree, hmap, ho, hkoa⟩ := koaAttachFd_cases hc
  have hsame : SameFiles m.koas m'.koas := by
    refine ⟨fun x hx => ?_, fun x => ?_, fun x => ?_⟩
    · have hx : x ∉ m'.free := hx
      rw [hfree] at hx
      exact hx
    · show (m'.koa x).type = (m.koa x).type
      by_cases hx : x = k
      · subst hx
        rw [hkoa]
      · rw [ho x hx]
    · show (m'.koa x).stIno = (m.koa x).stIno
      by_cases hx : x = k
      · subst hx
        rw [hkoa]
      · rw [ho x hx]
  have hmeet : FileInv m.koas (r.meet (some f) (some k)) files refs := by
    refine h.meet fun x hx => ?_
    cases hx
    exact hf.symm
  refine hmeet.change hsame (h.held.attachFd hk (fun x hx => by cases hx) hc) fun fd' x hx ht => ?_
  have hx : m'.map fd' = some x := hx
  rw [hmap, Function.update_apply] at hx
  rw [Function.update_apply]
  split at hx
  · rename_i he
    cases hx
    rw [if_pos he]
    exact hf.symm
  · rename_i he
    rw [if_neg he]
    exact hmeet.mapped fd' x hx ht

theorem FileInv.close (h : FileInv c r files refs) (fd : Nat) (hfd : c.map fd = none)
    (hfiles : ∀ x, x ≠ fd → files' x = files x) : FileInv c r files' refs where
  held := h.held
  known := h.known
  agree := h.agree
  mapped x k hk ht := by
    rw [hfiles x fun he => by rw [he, hfd] at hk; cases hk]
    exact h.mapped x k hk ht
  met := h.met

theorem Koas.detachFd_map (c : Koas n N) (k : Fin N) (fd : Nat) :
    (c.detachFd k fd).map = Function.update c.map fd none := by
  funext x
  show (koaDetachFd c.mgr k fd).2.map x = _
  by_cases hx : x = fd
  · subst hx
    rw [koaDetachFd_map_self, Function.update_self]
  · rw [koaDetachFd_map c.mgr k fd hx, Function.update_of_ne hx]
    rfl

/-- the entry of a descriptor is cleared, and nothing else -/
theorem Held.unmap (h : Held c [] refs) (fd : Nat) :
    Held { c with map := Function.update c.map fd none } [] refs := by
  have hback : ∀ x k, Attached { c with map := Function.update c.map fd none } [] x k →
      Attached c [] x k := by
    intro x k hx
    rcases hx with hx | ⟨-, hx⟩
    · have hx : Function.update c.map fd none x = some k := hx
      rw [Function.update_apply] at hx
      split at hx
      · cases hx
      · exact Or.inl hx
    · cases hx
  exact {
    nodup := h.nodup
    counted := fun k s hs => h.counted k s fun x hx => hback x k (hs x hx)
    covered := h.covered
    attached := fun x k hx => h.attached x k (hback x k hx)
    taken := h.taken
    unlisted := h.unlisted
    cached := h.cached }

theorem koaDetachFd_unlisted (hl : ¬ m.koas.Lists k fd) :
    (koaDetachFd m k fd).2.koas
      = { m.koas with map := Function.update m.koas.map fd none } := by
  by_cases hmap : m.map fd = none
  · have hmap' : m.koas.map fd = none := hmap
    rw [show Function.update m.koas.map fd none = m.koas.map from
      Function.update_eq_self_iff.mpr hmap'.symm]
    unfold koaDetachFd
    rw [hmap]
  · rw [koaDetachFd_clears hmap fun hf => hl ⟨hmap, hf⟩]
    rfl

theorem sameFiles_koaDetachFd (m : KoaMgr T n N) (k : Fin N) (fd : Nat) :
    SameFiles m.koas (koaDetachFd m k fd).2.koas := by
  refine ⟨fun x hx hf => hx ?_, fun x => (koaDetachFd_same m k fd x).1,
    fun x => (koaDetachFd_same m k fd x).2⟩
  show x ∈ (koaDetachFd m k fd).2.free
  unfold koaDetachFd
  split
  · exact hf
  · dsimp only
    split
    · exact hf
    · dsimp only
      rw [countDetach_free]
      split
      · exact List.mem_cons_of_mem k hf
      · exact hf

/-- a descriptor is detached from the KOA that it is mapped to, if it is found there -/
theorem FileInv.detachFd {b : Bool} (h : FileInv m.koas r files refs)
    (hfd : m.koas.Lists k fd → m.map fd = some k) (hc : (b, m') = koaDetachFd m k fd) :
    FileInv (m.koas.detachFd k fd) (if b then r.meet (r.koaFile k) (m.koas.removed k) else r) files
      refs := by
  obtain ⟨rfl, -⟩ := Prod.mk.inj hc
  have hfound := koaDetachFd_fst m k fd
  have hmeet : FileInv m.koas (if (koaDetachFd m k fd).1 then
      r.meet (r.koaFile k) (m.koas.removed k) else r) files refs := by
    split
    · rename_i hb
      exact h.remove (h.held.attached fd k (Or.inl (hfd (hfound.mp hb))))
    · exact h
  have hheld : Held (koaDetachFd m k fd).2.koas [] refs := by
    by_cases hl : m.koas.Lists k fd
    · exact h.held.detachFd fun _ => Or.inl (hfd hl)
    · rw [koaDetachFd_unlisted hl]
      exact h.held.unmap fd
  have hsame := sameFiles_koaDetachFd m k fd
  rw [koas_detachFd] at hheld hsame
  refine hmeet.change hsame hheld fun fd' x hx ht => ?_
  rw [Koas.detachFd_map, Function.update_apply] at hx
  split at hx
  · cases hx
  · exact hmeet.mapped fd' x hx ht

end

end XCalls
